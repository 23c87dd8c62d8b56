/-
What a numeral is made of.

A hexadecimal numeral has digits, an underscore, a mark, a sign and white
space and nothing else (`not_mem_of_readInt?`), so a text that can be read as
one holds neither a bar nor a capital T. A number that is written as text is
never negative (`Field.nonneg_of_quantityText`): the digits of no script are a
minus sign, and what starts with `0x` does not start with one.
-/
import AssertionReplay.Proofs.Digits

namespace AssertionReplay

open Text

namespace Text

theorem mem_of_digits? {base : Nat} {cs : List Char} {ds : List Nat} (h : digits? base cs = some ds) :
    ∀ c ∈ cs, c = '_' ∨ (digitIn? base c).isSome := by
  fun_induction digits? base cs generalizing ds with
  | case1 => cases h
  | case2 c =>
    obtain ⟨d, hd, -⟩ := Option.map_eq_some_iff.mp h
    simp [hd]
  | case3 c cs d ds' hd hds ih => simpa [hds] using ih hd
  | case4 => cases h
  | case5 c c' cs hne d ds' hd hds ih => simpa [hds] using ih hd
  | case6 => cases h

/-- The character stands in no hexadecimal numeral. -/
def ForeignToHex (c : Char) : Prop :=
  c ∉ ['_', 'x', 'X', '+', '-'] ∧ isNumeralBlank c = false ∧ digitIn? 16 c = none ∧ decimalDigit? c = none

theorem not_mem_of_magnitude? {c : Char} (hc : ForeignToHex c) {cs : List Char} {n : Nat}
    (h : magnitude? 16 cs = some n) : c ∉ cs := by
  obtain ⟨hmark, -, hdigit, hzero⟩ := hc
  simp only [List.mem_cons, List.not_mem_nil, or_false, not_or] at hmark
  have hdigits : ∀ {cs' : List Char} {n : Nat}, (digits? 16 cs').map (ofDigits 16) = some n → c ∉ cs' := by
    intro cs' n hn hmem
    obtain ⟨ds, hds, -⟩ := Option.map_eq_some_iff.mp hn
    rcases mem_of_digits? hds c hmem with rfl | hsome
    · exact hmark.1 rfl
    · simp [hdigit] at hsome
  have hmarked : ∀ {cs' : List Char} {n : Nat}, (markedDigits? 16 cs').map (ofDigits 16) = some n → c ∉ cs' := by
    intro cs' n hn
    unfold markedDigits? at hn
    split at hn
    · simp [hdigits hn, hmark.1]
    · exact hdigits hn
  simp only [magnitude?, beq_self_eq_true, if_true] at h
  split at h
  · rename_i rest hrest
    unfold afterHexMark? at hrest
    split at hrest
    · rename_i z x rest'
      simp only [Option.ite_none_right_eq_some, Option.some.injEq, Bool.and_eq_true, Bool.or_eq_true,
        beq_iff_eq] at hrest
      obtain ⟨⟨hz, hx⟩, rfl⟩ := hrest
      simp only [List.mem_cons, not_or]
      refine ⟨?_, ?_, hmarked h⟩
      · rintro rfl
        rw [hzero] at hz
        cases hz
      · rintro rfl
        exact hx.elim hmark.2.1 hmark.2.2.1
    · cases hrest
  · exact hdigits h

/-- How a numeral is read: what is left of it without white space is a sign and a magnitude, or a
magnitude alone. -/
theorem readIntChars?_eq_some {base : Nat} {cs : List Char} {n : Int} (h : readIntChars? base cs = some n) :
    ∃ ds, ∃ m : Nat, magnitude? base ds = some m ∧
      ((trimBy isNumeralBlank cs = '-' :: ds ∧ n = -m) ∨
        ((trimBy isNumeralBlank cs = '+' :: ds ∨ trimBy isNumeralBlank cs = ds) ∧ n = m)) := by
  unfold readIntChars? at h
  split at h
  · rename_i ds hds
    rcases hm : magnitude? base ds with _ | m <;> rw [hm] at h <;> cases h
    exact ⟨ds, m, hm, .inl ⟨hds, rfl⟩⟩
  · rename_i ds hds
    rcases hm : magnitude? base ds with _ | m <;> rw [hm] at h <;> cases h
    exact ⟨ds, m, hm, .inr ⟨.inl hds, rfl⟩⟩
  · rcases hm : magnitude? base (trimBy isNumeralBlank cs) with _ | m <;> rw [hm] at h <;> cases h
    exact ⟨_, m, hm, .inr ⟨.inr rfl, rfl⟩⟩

theorem not_mem_of_readInt? {c : Char} (hc : ForeignToHex c) {t : Text} {n : Int} (h : readInt? 16 t = some n) :
    Letter.char c ∉ t.letters := by
  obtain ⟨cs, hcs, hread⟩ := Option.bind_eq_some_iff.mp h
  rw [chars?_eq_some_iff] at hcs
  rw [hcs, letters_ofChars, List.mem_map_of_injective fun _ _ h => Letter.char.inj h]
  intro hmem
  have hsign := hc.1
  simp only [List.mem_cons, List.not_mem_nil, or_false, not_or] at hsign
  have htrim : c ∈ trimBy isNumeralBlank cs := (mem_trimBy_or hmem).resolve_right (by simp [hc.2.1])
  obtain ⟨ds, m, hm, ⟨hds, -⟩ | ⟨hds | hds, -⟩⟩ := readIntChars?_eq_some hread <;>
    rw [hds] at htrim
  · exact (List.mem_cons.mp htrim).elim hsign.2.2.2.2 (not_mem_of_magnitude? hc hm)
  · exact (List.mem_cons.mp htrim).elim hsign.2.2.2.1 (not_mem_of_magnitude? hc hm)
  · exact not_mem_of_magnitude? hc hm htrim

theorem nonneg_of_readInt? {base : Nat} {t : Text} {n : Int} (h : readInt? base t = some n)
    (hsign : ∀ cs, t.chars? = some cs → ∀ c ∈ (cs.dropWhile isNumeralBlank).head?, c ≠ '-') : 0 ≤ n := by
  obtain ⟨cs, hcs, hread⟩ := Option.bind_eq_some_iff.mp h
  obtain ⟨ds, m, -, ⟨hds, -⟩ | ⟨-, rfl⟩⟩ := readIntChars?_eq_some hread
  · obtain ⟨rest, hrest⟩ := List.rdropWhile_prefix isNumeralBlank (cs.dropWhile isNumeralBlank)
    rw [trimBy, dropRightWhile_eq] at hds
    rw [hds] at hrest
    exact absurd rfl (hsign cs hcs '-' (by rw [← hrest]; rfl))
  · omega

end Text
namespace Field

theorem exists_of_isHexMarked {cs : List Char} (h : isHexMarked (ofChars cs) = true) :
    ∃ rest, cs = '0' :: rest := by
  cases cs with
  | nil => exact absurd h (by decide)
  | cons c cs =>
    simp only [isHexMarked, Text.startsWith, Bool.or_eq_true, List.isPrefixOf_iff_prefix] at h
    have hc : Letter.char '0' = .char c := by
      rcases h with h | h <;> exact (List.cons_prefix_cons.mp h).1
    cases hc
    exact ⟨cs, rfl⟩

/-- **A number from text is not negative.** -/
theorem nonneg_of_quantityText {t : Text} {n : Int} (h : quantityText t = .ok n) : 0 ≤ n := by
  have hint : ∀ {base : Nat} {t : Text} {n : Int}, int base t = .ok n → readInt? base t = some n := by
    intro base t n h
    unfold int at h
    split at h
    · cases h; assumption
    · cases h
  unfold quantityText at h
  dsimp only at h
  split at h
  · cases h; decide
  split at h
  · rename_i hmark
    unfold hexText at h
    split at h
    · cases h; decide
    · refine nonneg_of_readInt? (hint h) fun cs hcs c hc => ?_
      rw [chars?_eq_some_iff] at hcs
      rw [hcs] at hmark
      obtain ⟨rest, rfl⟩ := exists_of_isHexMarked hmark
      cases hc
      decide
  split at h
  · cases h
  · rename_i hdigits
    refine nonneg_of_readInt? (hint h) fun cs hcs c hc => ?_
    rintro rfl
    rw [chars?_eq_some_iff] at hcs
    have hmem : '-' ∈ cs := (List.dropWhile_suffix _).subset (List.mem_of_mem_head? hc)
    simp only [allDigits, hcs, letters_ofChars, Bool.not_eq_true, Bool.not_eq_false', Bool.and_eq_true,
      List.all_map, List.all_eq_true] at hdigits
    exact absurd (hdigits.2 '-' hmem) (by decide)

end Field
end AssertionReplay
