/-
The normal form of an address.

An address is spelled with forty hexadecimal digits of either letter case, a
mark before them or none, and white space around it (`Address.Spells`). It is
read as the same digits after a mark, and a hash of the lower case digits
decides which of them are capitals; so two spellings are read alike exactly if
they differ in nothing but letter case, mark and white space, whatever the
hash is (`parseWith_eq_iff`). Two marked addresses are compared as they are,
without reading them, and this tells the same (`same_of_marked`). Hence it
makes no difference whether addresses are compared raw or read
(`address_normal_form`).
-/
import AssertionReplay.Proofs.Checksum

namespace AssertionReplay

open Text

theorem Text.ofChars_inj {cs ds : List Char} : ofChars cs = ofChars ds ↔ cs = ds :=
  ⟨fun h => Option.some.inj ((chars?_ofChars cs).symm.trans ((congrArg chars? h).trans (chars?_ofChars ds))),
    congrArg ofChars⟩

namespace Address

/-- Forty hexadecimal digits, each of either letter case. -/
structure Digits (ds : List Char) : Prop where
  length : ds.length = 40
  hex : ∀ d ∈ ds, isHexDigit d = true

/-- The digits are the same but for letter case. -/
def SameDigits (cs ds : List Char) : Prop := cs.map lowerDigit = ds.map lowerDigit

instance (cs ds : List Char) : Decidable (SameDigits cs ds) :=
  inferInstanceAs (Decidable (cs.map lowerDigit = ds.map lowerDigit))

/-- What may stand right before the digits. -/
inductive Mark : List Char → Prop
  | none : Mark []
  | small : Mark ['0', 'x']
  | capital : Mark ['0', 'X']

/-- The text is these digits, with or without a mark before them and with any white space around it. -/
def Spells (t : Text) (ds : List Char) : Prop :=
  ∃ before mark after, Mark mark ∧ (∀ c ∈ before ++ after, isBlank c = true) ∧
    t = ofChars (before ++ (mark ++ ds) ++ after)

/-- The text is these digits after a mark, and nothing else. -/
def Marked (t : Text) (ds : List Char) : Prop := ∃ x, (x = 'x' ∨ x = 'X') ∧ t = ofChars ('0' :: x :: ds)

variable {hash : CaseHash} {ds es : List Char} {s t : Text}

theorem SameDigits.symm {cs : List Char} (h : SameDigits cs ds) : SameDigits ds cs := Eq.symm h

theorem SameDigits.trans {cs : List Char} (h : SameDigits cs ds) (h' : SameDigits ds es) : SameDigits cs es :=
  Eq.trans h h'

theorem Marked.spells (h : Marked t ds) : Spells t ds := by
  obtain ⟨x, rfl | rfl, rfl⟩ := h
  · exact ⟨[], _, [], .small, by simp, by simp⟩
  · exact ⟨[], _, [], .capital, by simp, by simp⟩

/-! ## Reading -/

theorem Mark.not_blank {mark : List Char} (h : Mark mark) : ∀ c ∈ mark, isBlank c = false := by
  have hall : (mark.all fun c => !isBlank c) = true := by cases h <;> rfl
  intro c hc
  simpa using List.all_eq_true.mp hall c hc

/-- No digit is mistaken for a part of the mark. -/
theorem Digits.digits?_eq (h : Digits ds) {mark : List Char} (hmark : Mark mark) :
    digits? (mark ++ ds) = some ds := by
  have hdigits : (if ds.length == 40 && ds.all isHexDigit then some ds else none) = some ds := by
    simp [h.length, List.all_eq_true.mpr h.hex]
  cases hmark with
  | none =>
    have hx : 'x' ∉ ds := fun hmem => absurd (h.hex _ hmem) (by decide)
    have hX : 'X' ∉ ds := fun hmem => absurd (h.hex _ hmem) (by decide)
    rw [List.nil_append]
    unfold digits?
    split
    · exact absurd (by simp) hx
    · exact absurd (by simp) hX
    · exact hdigits
  | small => exact hdigits
  | capital => exact hdigits

/-- **Reading an address** puts its digits into their checksummed form, however they are spelled. -/
theorem Spells.parseWith_eq (h : Spells t ds) (hds : Digits ds) :
    parseWith hash (.str t) = .ok (checksummed hash ds) := by
  obtain ⟨before, mark, after, hmark, hblank, rfl⟩ := h
  have hsolid : ∀ c ∈ mark ++ ds, isBlank c = false := by
    rw [List.forall_mem_append]
    exact ⟨hmark.not_blank, fun c hc => (isHexDigit_facts (hds.hex c hc)).2.2.2.2⟩
  have hread : ofText? hash (ofChars (before ++ (mark ++ ds) ++ after)) = some (checksummed hash ds) := by
    rw [ofText?, trim_padded hblank, trim_ofChars hsolid, chars?_ofChars, Option.bind_some, hds.digits?_eq hmark,
      Option.map_some]
  have hne : ds ≠ [] := List.ne_nil_of_length_eq_add_one hds.length
  have hgiven : (Json.str (ofChars (before ++ (mark ++ ds) ++ after))).isGiven = true := by
    simp [Json.isGiven, Text.isEmpty, hne]
  rw [parseWith, hgiven]
  simp only [Bool.not_true, Bool.false_eq_true, if_false, hread]

theorem marked_ofList (cs : List Char) : Marked (String.ofList ('0' :: 'x' :: cs)) cs :=
  ⟨'x', .inl rfl, ofString_ofList _⟩

theorem Digits.checksummed_eq (h : Digits ds) (hash : CaseHash) :
    ∃ cs, checksummed hash ds = String.ofList ('0' :: 'x' :: cs) ∧ Digits cs ∧ SameDigits cs ds := by
  obtain ⟨hhex, hsame⟩ := applyCase_facts h.hex (hash (ds.map lowerDigit))
  exact ⟨_, rfl, ⟨by rw [length_applyCase, List.length_map, h.length], hhex⟩, hsame⟩

theorem Digits.checksummed_eq_iff (hds : Digits ds) (hes : Digits es) :
    checksummed hash ds = checksummed hash es ↔ SameDigits ds es := by
  constructor
  · intro h
    obtain ⟨cs, hcs, -, hsame⟩ := hds.checksummed_eq hash
    obtain ⟨cs', hcs', -, hsame'⟩ := hes.checksummed_eq hash
    rw [hcs, hcs', String.ofList_inj] at h
    cases h
    exact hsame.symm.trans hsame'
  · intro h
    rw [checksummed, checksummed, h]

/-- **Spellings are read alike** exactly if they spell the same digits. -/
theorem parseWith_eq_iff (hs : Spells s ds) (hds : Digits ds) (ht : Spells t es) (hes : Digits es) :
    parseWith hash (.str s) = parseWith hash (.str t) ↔ SameDigits ds es := by
  rw [hs.parseWith_eq hds, ht.parseWith_eq hes, Except.ok.injEq, hds.checksummed_eq_iff hes]

/-! ## Comparing -/

theorem lowerChar_ascii {c : Char} (h : c.toNat < 128) : lowerChar c = [lowerDigit c] := by
  unfold lowerChar lowerDigit
  dsimp only
  rw [if_pos h]
  split <;> rfl

theorem lower_ascii {cs : List Char} (h : ∀ c ∈ cs, c.toNat < 128) :
    lower (ofChars cs) = ofChars (cs.map lowerDigit) := by
  have hletters : ∀ before, lowerAfter before (cs.map .char) = (cs.map lowerDigit).map .char := by
    induction cs with
    | nil => intro before; rfl
    | cons c cs ih =>
      rw [List.forall_mem_cons] at h
      have hsigma : (c.toNat == 0x3A3) = false := by
        rw [beq_eq_false_iff_ne]
        omega
      intro before
      simp only [List.map_cons, lowerAfter, lowerLetter, hsigma, Bool.false_eq_true, if_false, lowerChar_ascii h.1,
        ih h.2, List.map_nil, List.singleton_append]
  exact congrArg Text.mk (hletters [])

theorem Marked.lower_eq (h : Marked t ds) (hds : Digits ds) : lower t = ofChars ('0' :: 'x' :: ds.map lowerDigit) := by
  obtain ⟨x, hx, rfl⟩ := h
  have hmark : x.toNat < 128 ∧ lowerDigit x = 'x' := by rcases hx with rfl | rfl <;> decide
  rw [lower_ascii]
  · rw [List.map_cons, List.map_cons, hmark.2]
    rfl
  · simp only [List.forall_mem_cons]
    exact ⟨by decide, hmark.1, fun d hd => toNat_lt_of_isHexDigit (hds.hex d hd)⟩

/-- **Comparing marked addresses as they are** tells whether their digits are the same. -/
theorem same_of_marked (hs : Marked s ds) (hds : Digits ds) (ht : Marked t es) (hes : Digits es) :
    same (.str s) (.str t) = .ok (decide (SameDigits ds es)) := by
  have hgiven : s.isEmpty = false := by
    obtain ⟨x, -, rfl⟩ := hs
    rfl
  have hinj : ofChars ('0' :: 'x' :: ds.map lowerDigit) = ofChars ('0' :: 'x' :: es.map lowerDigit) ↔
      SameDigits ds es := by
    simp [ofChars_inj, SameDigits]
  rw [same_of_textual (.inr ⟨s, rfl⟩), names, hgiven, hs.lower_eq hds, ht.lower_eq hes, Bool.not_false,
    Bool.true_and, beq_eq_decide, decide_eq_decide.mpr hinj]

/-! ## The normal form -/

/-- **The normal form of an address**, whatever hash decides letter case. An address is read as the same digits
after a mark, with nothing but letter case changed, and what was read is read again as it is. Addresses are read
alike exactly if their digits are the same but for letter case. Where a marked one is compared as it is, with
another marked one or with one that was read, the comparison holds exactly if both are read alike. -/
theorem address_normal_form (hash : CaseHash) {s t : Text} {ds es : List Char} (hds : Digits ds) (hes : Digits es)
    (hs : Spells s ds) (ht : Spells t es) :
    (∃ a cs, parseWith hash (.str s) = .ok a ∧ a = String.ofList ('0' :: 'x' :: cs) ∧
      Digits cs ∧ SameDigits cs ds ∧ parseWith hash (.str a) = .ok a) ∧
    (parseWith hash (.str s) = parseWith hash (.str t) ↔ SameDigits ds es) ∧
    (Marked s ds → Marked t es → ∃ b, same (.str s) (.str t) = .ok b ∧
      (b = true ↔ parseWith hash (.str s) = parseWith hash (.str t))) ∧
    (Marked s ds → ∀ a, parseWith hash (.str t) = .ok a → ∃ b, same (.str s) (.str a) = .ok b ∧
      (b = true ↔ parseWith hash (.str s) = .ok a)) := by
  have halike : parseWith hash (.str s) = parseWith hash (.str t) ↔ SameDigits ds es :=
    parseWith_eq_iff hs hds ht hes
  refine ⟨?_, halike, fun hs' ht' => ⟨_, same_of_marked hs' hds ht' hes, ?_⟩, fun hs' a ha => ?_⟩
  · obtain ⟨cs, hcs, hdigits, hsame⟩ := hds.checksummed_eq hash
    refine ⟨_, cs, hs.parseWith_eq hds, hcs, hdigits, hsame, ?_⟩
    have hmarked : Marked (checksummed hash ds) cs := hcs ▸ marked_ofList cs
    rw [hmarked.spells.parseWith_eq hdigits, (hdigits.checksummed_eq_iff hds).mpr hsame]
  · rw [decide_eq_true_iff, halike]
  · obtain rfl : checksummed hash es = a := Except.ok.inj ((ht.parseWith_eq hes).symm.trans ha)
    obtain ⟨cs, hcs, hdigits, hsame⟩ := hes.checksummed_eq hash
    have hmarked : Marked (checksummed hash es) cs := hcs ▸ marked_ofList cs
    refine ⟨_, same_of_marked hs' hds hmarked hdigits, ?_⟩
    rw [decide_eq_true_iff, ← ha, halike]
    exact ⟨fun h => h.trans hsame, fun h => h.trans hsame.symm⟩

/-- Digits with letters of both cases, and the same digits with no capitals. -/
def mixedDigits : List Char := "27B1fdB04752bbC536007a920D24acb045561c26".toList

def smallDigits : List Char := mixedDigits.map lowerDigit

/-- The first text is marked with a capital, so both are compared as they are, and they are read alike; so is the
second one with white space around it and no mark. -/
theorem address_normal_form_mixed :
    Marked (ofChars ('0' :: 'X' :: mixedDigits)) mixedDigits ∧
    Marked (ofChars ('0' :: 'x' :: smallDigits)) smallDigits ∧
    Spells (ofChars (' ' :: smallDigits ++ ['\n'])) smallDigits ∧
    same (.str (ofChars ('0' :: 'X' :: mixedDigits))) (.str (ofChars ('0' :: 'x' :: smallDigits))) = .ok true ∧
    parse (.str (ofChars ('0' :: 'X' :: mixedDigits))) = parse (.str (ofChars (' ' :: smallDigits ++ ['\n']))) := by
  have hmixed : Digits mixedDigits := ⟨by decide +kernel, List.all_eq_true.mp (by decide +kernel)⟩
  have hsmall : Digits smallDigits := ⟨by decide +kernel, List.all_eq_true.mp (by decide +kernel)⟩
  have hsame : SameDigits mixedDigits smallDigits := by decide +kernel
  have hcapital : Marked (ofChars ('0' :: 'X' :: mixedDigits)) mixedDigits := ⟨'X', .inr rfl, rfl⟩
  have hmarked : Marked (ofChars ('0' :: 'x' :: smallDigits)) smallDigits := ⟨'x', .inl rfl, rfl⟩
  have hpadded : Spells (ofChars (' ' :: smallDigits ++ ['\n'])) smallDigits :=
    ⟨[' '], [], ['\n'], .none, List.all_eq_true.mp (by decide), rfl⟩
  have hread := (address_normal_form keccakCase hmixed hsmall hcapital.spells hpadded).2.1.mpr hsame
  obtain ⟨-, halike, hcompared, -⟩ := address_normal_form keccakCase hmixed hsmall hcapital.spells hmarked.spells
  obtain ⟨b, hb, hholds⟩ := hcompared hcapital hmarked
  rw [hholds.mpr (halike.mpr hsame)] at hb
  exact ⟨hcapital, hmarked, hpadded, hb, hread⟩

end Address
end AssertionReplay
