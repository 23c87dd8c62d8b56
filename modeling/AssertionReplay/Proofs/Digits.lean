/-
Numerals that are written are read back.

Decimal numerals are the short ones: a number has one exactly below
`10 ^ decimalDigitLimit`, and then a log line can show it and the reader gives
it back (`Field.quantityText_decimal`). Hexadecimal ones have no limit.
-/
import AssertionReplay.Field
import AssertionReplay.Proofs.Letters
import AssertionReplay.Proofs.Outcome
import Mathlib.Algebra.Group.Nat.Defs
import Mathlib.Data.List.Forall2

namespace AssertionReplay

open Text

namespace Text

/-- The number can be written in decimal digits. -/
def HasNumeral (n : Int) : Prop := n.natAbs < 10 ^ decimalDigitLimit

theorem digitChars_length_le_iff (n : Nat) :
    (digitChars 10 n).length ≤ decimalDigitLimit ↔ n < 10 ^ decimalDigitLimit :=
  Nat.length_toDigits_le_iff (by decide) (by decide)

theorem decimal?_eq_some_iff {n : Int} : decimal? n = some (decimal n) ↔ HasNumeral n := by
  simp only [decimal?, digitChars_length_le_iff, HasNumeral]
  split <;> simp_all

theorem decimal?_eq_none_iff {n : Int} : decimal? n = none ↔ ¬ HasNumeral n := by
  simp only [decimal?, digitChars_length_le_iff, HasNumeral]
  split <;> simp_all

theorem HasNumeral.between {a b n : Int} (ha : HasNumeral a) (hb : HasNumeral b) (h₁ : a ≤ n)
    (h₂ : n ≤ b) : HasNumeral n := by
  unfold HasNumeral at *
  omega

theorem hasNumeral_of_lt {n : Int} {k : Nat} (hk : k ≤ decimalDigitLimit) (h : n.natAbs < 10 ^ k) : HasNumeral n :=
  Nat.lt_of_lt_of_le h (Nat.pow_le_pow_right (by decide) hk)

theorem hasNumeral_digit {n : Int} (h : n.natAbs < 10) : HasNumeral n :=
  hasNumeral_of_lt (by decide : 1 ≤ decimalDigitLimit) h

/-! ## Hexadecimal -/

theorem digitIn?_underscore (base : Nat) : digitIn? base '_' = none := rfl

theorem digitChar_facts : ∀ d < 16,
    digitIn? 16 (Nat.digitChar d) = some d ∧ isNumeralBlank (Nat.digitChar d) = false := by decide

theorem digits?_of_forall₂ {base : Nat} {cs : List Char} {ds : List Nat}
    (h : List.Forall₂ (fun c d => digitIn? base c = some d) cs ds) (hne : cs ≠ []) :
    digits? base cs = some ds := by
  induction h with
  | nil => exact absurd rfl hne
  | @cons c d cs ds hc hcs ih =>
    cases hcs with
    | nil => simp [digits?, hc]
    | @cons c' d' cs ds hc' hcs =>
      have hne' : c' ≠ '_' := by
        intro h
        subst h
        rw [digitIn?_underscore] at hc'
        cases hc'
      rw [digits?]
      · simp [hc, ih (by simp)]
      · exact hne'

/-- The digits of a number, one by one, and the number that they spell. -/
theorem toDigits_spell {base : Nat} (hbase : 1 < base) (n : Nat) : ∃ ds, (∀ d ∈ ds, d < base) ∧
    Nat.toDigits base n = ds.map Nat.digitChar ∧ ofDigits base ds = n := by
  induction n using Nat.strongRecOn with
  | ind n ih =>
    by_cases hn : n < base
    · exact ⟨[n], by simpa, Nat.toDigits_of_lt_base hn, by simp [ofDigits]⟩
    · obtain ⟨ds, hds, hcs, hv⟩ := ih (n / base) (Nat.div_lt_self (by omega) hbase)
      refine ⟨ds ++ [n % base], ?_, ?_, ?_⟩
      · simp only [List.mem_append, List.mem_singleton]
        intro d h
        rcases h with hd | rfl
        · exact hds d hd
        · exact Nat.mod_lt n (by omega)
      · rw [Nat.toDigits_of_base_le hbase (by omega), hcs]
        simp
      · unfold ofDigits at hv ⊢
        rw [List.foldl_append, hv]
        simp only [List.foldl_cons, List.foldl_nil]
        exact Nat.div_add_mod' n base

theorem ofDigits_zeros (base zeros : Nat) (ds : List Nat) :
    ofDigits base (List.replicate zeros 0 ++ ds) = ofDigits base ds := by
  have hzeros : (List.replicate zeros 0).foldl (fun n d => n * base + d) 0 = 0 := by
    induction zeros with
    | zero => rfl
    | succ zeros ih => rwa [List.replicate_succ, List.foldl_cons, Nat.zero_mul]
  rw [ofDigits, List.foldl_append, hzeros, ← ofDigits]

/-- Zeros in front of the digits of a number are digits too, and spell the same number. -/
theorem exists_padded {base : Nat} (hbase : 1 < base) (zeros n : Nat) : ∃ ds, ds ≠ [] ∧ (∀ d ∈ ds, d < base) ∧
    List.replicate zeros '0' ++ digitChars base n = ds.map Nat.digitChar ∧ ofDigits base ds = n := by
  obtain ⟨ds, hds, hcs, hv⟩ := toDigits_spell hbase n
  have hne : ds ≠ [] := by
    rintro rfl
    exact Nat.toDigits_ne_nil hcs
  refine ⟨List.replicate zeros 0 ++ ds, List.append_ne_nil_of_right_ne_nil _ hne, ?_, ?_, ?_⟩
  · rw [List.forall_mem_append]
    exact ⟨fun d hd => by rw [List.eq_of_mem_replicate hd]; omega, hds⟩
  · rw [List.map_append, List.map_replicate, digitChars, hcs]
    rfl
  · rw [ofDigits_zeros, hv]

/-- A mark of base sixteen and digits, in either case. -/
theorem readInt?_marked {x : Char} (hx : x = 'x' ∨ x = 'X') {cs : List Char} {ds : List Nat} (hne : cs ≠ [])
    (h : List.Forall₂ (fun c d => digitIn? 16 c = some d ∧ isNumeralBlank c = false) cs ds) :
    readInt? 16 (ofChars ('0' :: x :: cs)) = some (ofDigits 16 ds : Int) := by
  have hdigits := digits?_of_forall₂ (h.imp fun _ _ => And.left) hne
  have hblank : ∀ c ∈ '0' :: x :: cs, isNumeralBlank c = false := by
    rw [List.forall_mem_cons, List.forall_mem_cons]
    refine ⟨rfl, by rcases hx with rfl | rfl <;> rfl, fun c hc => ?_⟩
    obtain ⟨d, -, -, hc⟩ := exists_of_forall₂ h hc
    exact hc
  have hmarked : markedDigits? 16 cs = some ds := by
    unfold markedDigits?
    split
    · cases h with
      | cons hunderscore _ => exact absurd hunderscore.1 (by simp [digitIn?_underscore])
    · exact hdigits
  have hmark : magnitude? 16 ('0' :: x :: cs) = some (ofDigits 16 ds) := by
    rcases hx with rfl | rfl <;> simp [magnitude?, afterHexMark?, decimalDigit?, hmarked]
  rw [readInt?, chars?_ofChars, Option.bind_some, readIntChars?, (trimmed_of_none hblank).trimBy]
  simp [hmark]

/-- **Hexadecimal numerals are read back.** -/
theorem readInt?_hexNumeral {n : Int} (hn : 0 ≤ n) : readInt? 16 (hexNumeral n) = some n := by
  obtain ⟨ds, hds, hcs, hv⟩ := toDigits_spell (by decide : 1 < 16) n.natAbs
  have hne : ds.map Nat.digitChar ≠ [] := hcs ▸ Nat.toDigits_ne_nil
  have htext : ofString (hexNumeral n) = ofChars ('0' :: 'x' :: ds.map Nat.digitChar) := by
    rw [← hcs]
    simp [hexNumeral, ofString, digitChars, Int.not_lt.mpr hn]
  rw [htext, readInt?_marked (.inl rfl) hne, hv, Int.natAbs_of_nonneg hn]
  rw [List.forall₂_map_left_iff, List.forall₂_same]
  exact fun d hd => digitChar_facts d (hds d hd)

/-! ## Decimal -/

theorem decimalDigit_facts : ∀ d < 10, digitIn? 10 (Nat.digitChar d) = some d ∧
    isDigit (Nat.digitChar d) = true ∧ isBlank (Nat.digitChar d) = false ∧
    Nat.digitChar d ∉ ['x', 'X', '-', '+'] := by decide

theorem allDigits_ofChars {cs : List Char} (hne : cs ≠ []) (h : ∀ c ∈ cs, isDigit c = true) :
    allDigits (ofChars cs) = true := by
  have hempty : (ofChars cs).isEmpty = false := by simp [Text.isEmpty, hne]
  rw [allDigits, hempty, letters_ofChars, List.all_map]
  exact List.all_eq_true.mpr h

theorem ofString_decimal (n : Nat) : ofString (decimal n) = ofChars (digitChars 10 n) := by
  rw [← ofString_ofList]
  rfl

theorem exists_digitChars (n : Nat) : ∃ ds, ds ≠ [] ∧ (∀ d ∈ ds, d < 10) ∧
    digitChars 10 n = ds.map Nat.digitChar ∧ ofDigits 10 ds = n := exists_padded (by decide) 0 n

theorem digitChars_ne_nil (n : Nat) : digitChars 10 n ≠ [] := Nat.toDigits_ne_nil

theorem mem_digitChars {n : Nat} {c : Char} (h : c ∈ digitChars 10 n) : ∃ d < 10, c = Nat.digitChar d := by
  obtain ⟨ds, -, hds, hcs, -⟩ := exists_digitChars n
  rw [hcs] at h
  obtain ⟨d, hd, rfl⟩ := List.mem_map.mp h
  exact ⟨d, hds d hd, rfl⟩

/-- Only zero is written with a zero in front. -/
theorem eq_zero_of_digitChars {n : Nat} {cs : List Char} (h : digitChars 10 n = '0' :: cs) : n = 0 := by
  induction n using Nat.strongRecOn generalizing cs with
  | ind n ih =>
    unfold digitChars at h
    by_cases hn : n < 10
    · rw [Nat.toDigits_of_lt_base hn, List.cons.injEq] at h
      exact (by decide : ∀ d < 10, Nat.digitChar d = '0' → d = 0) n hn h.1
    · rw [Nat.toDigits_of_base_le (by decide) (by omega)] at h
      obtain ⟨c, cs', hcs⟩ := List.exists_cons_of_ne_nil (digitChars_ne_nil (n / 10))
      unfold digitChars at hcs
      rw [hcs, List.cons_append, List.cons.injEq] at h
      have hzero := ih (n / 10) (by omega) (hcs.trans (by rw [h.1]))
      omega

theorem isBlank_of_mem_digitChars {n : Nat} : ∀ c ∈ digitChars 10 n, isBlank c = false := by
  intro c hc
  obtain ⟨d, hd, rfl⟩ := mem_digitChars hc
  exact (decimalDigit_facts d hd).2.2.1

theorem unpadded_decimal (n : Nat) : Unpadded (decimal n) := by
  rw [ofString_decimal]
  exact unpadded_ofChars (digitChars_ne_nil n) isBlank_of_mem_digitChars

theorem trim_decimal (n : Nat) : trim (decimal n) = decimal n := by
  rw [ofString_decimal]
  exact trim_ofChars isBlank_of_mem_digitChars

section

variable {ds : List Nat} (hne : ds ≠ []) (hds : ∀ d ∈ ds, d < 10)

include hne hds

theorem digits?_digits : digits? 10 (ds.map Nat.digitChar) = some ds := by
  refine digits?_of_forall₂ ?_ (by simpa)
  rw [List.forall₂_map_left_iff, List.forall₂_same]
  exact fun d hd => (decimalDigit_facts d (hds d hd)).1

/-- A numeral that starts with a digit has no sign. -/
theorem readInt?_digits : readInt? 10 (ofChars (ds.map Nat.digitChar)) =
    if ds.length ≤ decimalDigitLimit then some (ofDigits 10 ds : Int) else none := by
  have hfacts : ∀ c ∈ ds.map Nat.digitChar, isBlank c = false ∧ c ∉ ['x', 'X', '-', '+'] :=
    List.forall_mem_map.mpr fun d hd => (decimalDigit_facts d (hds d hd)).2.2
  have htrim : trimBy isNumeralBlank (ds.map Nat.digitChar) = ds.map Nat.digitChar :=
    (trimmed_of_none fun c hc => by simp [isNumeralBlank, (hfacts c hc).1]).trimBy
  have hmagnitude : magnitude? 10 (ds.map Nat.digitChar) =
      if ds.length ≤ decimalDigitLimit then some (ofDigits 10 ds) else none := by
    simp [magnitude?, digits?_digits hne hds]
  rw [readInt?, chars?_ofChars, Option.bind_some, readIntChars?, htrim]
  split
  · rename_i heq
    exact absurd (heq ▸ hfacts) (by simp)
  · rename_i heq
    exact absurd (heq ▸ hfacts) (by simp)
  · rw [hmagnitude]
    split <;> rfl

end

theorem decimal_inj {m n : Nat} (h : (decimal m : Text) = decimal n) : m = n := by
  rw [ofString_decimal, ofString_decimal] at h
  have hcs : digitChars 10 m = digitChars 10 n := by
    have hchars := congrArg chars? h
    rwa [chars?_ofChars, chars?_ofChars, Option.some.injEq] at hchars
  obtain ⟨ds, hne, hds, hm, rfl⟩ := exists_digitChars m
  obtain ⟨ds', hne', hds', hn, rfl⟩ := exists_digitChars n
  have hsame := digits?_digits hne hds
  rw [← hm, hcs, hn, digits?_digits hne' hds'] at hsame
  rw [Option.some.inj hsame]

end Text

namespace Field

theorem isHexMarked_ofChars {cs : List Char} (h : ∀ c ∈ cs, c ≠ 'x' ∧ c ≠ 'X') :
    isHexMarked (ofChars cs) = false := by
  have hnot : ∀ c : Char, c = 'x' ∨ c = 'X' → ∀ s, s.letters = [.char '0', .char c] →
      (ofChars cs).startsWith s = false := by
    intro c hc s hs
    rw [Bool.eq_false_iff]
    intro hhead
    rw [Text.startsWith, List.isPrefixOf_iff_prefix, hs] at hhead
    obtain ⟨c', hmem, hc'⟩ := List.mem_map.mp (hhead.subset (by simp : Letter.char c ∈ _))
    cases hc'
    rcases hc with rfl | rfl
    · exact (h _ hmem).1 rfl
    · exact (h _ hmem).2 rfl
  rw [isHexMarked, hnot 'x' (.inl rfl) "0x" rfl, hnot 'X' (.inr rfl) "0X" rfl]
  rfl

/-- **Decimal digits are read as the number that they spell**, if they are no more than a numeral may
have. -/
theorem quantityText_digits {ds : List Nat} (hne : ds ≠ []) (hds : ∀ d ∈ ds, d < 10) :
    quantityText (ofChars (ds.map Nat.digitChar)) =
      if ds.length ≤ decimalDigitLimit then .ok (ofDigits 10 ds : Int) else .error unreadable := by
  have hfacts : ∀ c ∈ ds.map Nat.digitChar, isDigit c = true ∧ isBlank c = false ∧ c ∉ ['x', 'X', '-', '+'] :=
    List.forall_mem_map.mpr fun d hd => (decimalDigit_facts d (hds d hd)).2
  have hempty : (ofChars (ds.map Nat.digitChar)).isEmpty = false := by simp [Text.isEmpty, hne]
  have hdigits : allDigits (ofChars (ds.map Nat.digitChar)) = true :=
    allDigits_ofChars (by simpa) fun c hc => (hfacts c hc).1
  have hmark : isHexMarked (ofChars (ds.map Nat.digitChar)) = false := by
    refine isHexMarked_ofChars fun c hc => ?_
    have hmark := (hfacts c hc).2.2
    simp only [List.mem_cons, not_or] at hmark
    exact ⟨hmark.1, hmark.2.1⟩
  unfold quantityText int
  rw [trim_ofChars fun c hc => (hfacts c hc).2.1]
  simp only [hempty, hmark, hdigits, Bool.false_eq_true, if_false, Bool.not_true, readInt?_digits hne hds]
  by_cases hlength : ds.length ≤ decimalDigitLimit
  · rw [if_pos hlength, if_pos hlength]
  · rw [if_neg hlength, if_neg hlength]

theorem quantityText_written (n : Nat) :
    quantityText (decimal n) = if (digitChars 10 n).length ≤ decimalDigitLimit then .ok (n : Int)
      else .error unreadable := by
  obtain ⟨ds, hne, hds, hcs, hv⟩ := exists_digitChars n
  rw [ofString_decimal, hcs, quantityText_digits hne hds, List.length_map, hv]

/-- **Decimal numerals are read back.** -/
theorem quantityText_decimal {n : Nat} (h : HasNumeral n) : quantityText (decimal n) = .ok (n : Int) := by
  rw [quantityText_written, if_pos ((digitChars_length_le_iff n).mpr (by simpa [HasNumeral] using h))]

theorem quantityText_decimal_error {n : Nat} (h : ¬ HasNumeral n) :
    quantityText (decimal n) = .error unreadable := by
  rw [quantityText_written,
    if_neg fun hlength => h (by simpa [HasNumeral] using (digitChars_length_le_iff n).mp hlength)]

theorem hexNumeral_isEmpty {n : Int} (hn : 0 ≤ n) : (ofString (hexNumeral n)).isEmpty = false := by
  have hread := readInt?_hexNumeral hn
  by_contra h
  have hnil : ofString (hexNumeral n) = ⟨[]⟩ := isEmpty_iff.mp (by simpa using h)
  rw [hnil, show readInt? 16 ⟨[]⟩ = none by decide] at hread
  cases hread

theorem hexInt_hexNumeral {n : Int} (hn : 0 ≤ n) : hexInt (.str (hexNumeral n)) = .ok n := by
  have hread := readInt?_hexNumeral hn
  have hbare : ofString (hexNumeral n) ≠ "0x" := by
    intro h
    rw [h, show readInt? 16 "0x" = none by decide] at hread
    cases hread
  simp [hexInt, Json.isGiven, hexNumeral_isEmpty hn, hexText, hbare, int, hread]

end Field
end AssertionReplay
