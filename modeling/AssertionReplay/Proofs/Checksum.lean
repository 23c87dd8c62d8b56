/-
Checksummed addresses are read as they are.

The hash that fixes letter case is taken of the lower case digits, and a
checksummed form has the same lower case digits as what it was made of, so
putting it into that form again changes nothing, whatever the hash is
(`ofText?_checksummed`). Every address that is read is of that form.
-/
import AssertionReplay.Proofs.Letters

namespace AssertionReplay.Address

open Text

/-- The text is an address in its checksummed form: reading it gives it back. -/
def IsChecksummed (t : Text) : Prop := ∃ a : String, parseText t = .ok a ∧ t = a

/-! ## Digits -/

/-- The hexadecimal digits of both cases, as an evaluated table over ASCII. -/
theorem isHexDigit_table : ∀ n < 128, isHexDigit (Char.ofNat n) = true →
    isHexDigit (lowerDigit (Char.ofNat n)) = true ∧
    isHexDigit (upperDigit (lowerDigit (Char.ofNat n))) = true ∧
    lowerDigit (lowerDigit (Char.ofNat n)) = lowerDigit (Char.ofNat n) ∧
    lowerDigit (upperDigit (lowerDigit (Char.ofNat n))) = lowerDigit (Char.ofNat n) ∧
    isBlank (Char.ofNat n) = false := by decide +kernel

theorem toNat_lt_of_isHexDigit {c : Char} (h : isHexDigit c = true) : c.toNat < 128 := by
  unfold isHexDigit hexValue? at h
  dsimp only at h
  by_contra hge
  rw [if_neg (by simp; omega), if_neg (by simp; omega), if_neg (by simp; omega)] at h
  cases h

theorem isHexDigit_facts {c : Char} (h : isHexDigit c = true) :
    isHexDigit (lowerDigit c) = true ∧ isHexDigit (upperDigit (lowerDigit c)) = true ∧
    lowerDigit (lowerDigit c) = lowerDigit c ∧ lowerDigit (upperDigit (lowerDigit c)) = lowerDigit c ∧
    isBlank c = false := by
  have := isHexDigit_table c.toNat (toNat_lt_of_isHexDigit h)
  rw [Char.ofNat_toNat] at this
  exact this h

/-! ## Letter case -/

@[simp] theorem length_applyCase (cs : List Char) (ns : List Nat) : (applyCase cs ns).length = cs.length := by
  induction cs generalizing ns with
  | nil => rfl
  | cons c cs ih => cases ns <;> simp [applyCase, ih]

theorem applyCase_facts {ds : List Char} (h : ∀ d ∈ ds, isHexDigit d = true) (ns : List Nat) :
    (∀ c ∈ applyCase (ds.map lowerDigit) ns, isHexDigit c = true) ∧
      (applyCase (ds.map lowerDigit) ns).map lowerDigit = ds.map lowerDigit := by
  induction ds generalizing ns with
  | nil => simp [applyCase]
  | cons d ds ih =>
    obtain ⟨hlowered, huppered, htwice, hback, -⟩ := isHexDigit_facts (h d (by simp))
    have hds : ∀ d' ∈ ds, isHexDigit d' = true := fun d' hd' => h d' (by simp [hd'])
    cases ns with
    | nil => simpa [applyCase, hlowered, htwice] using ih hds []
    | cons n ns =>
      rw [List.map_cons, applyCase]
      split
      · simpa [huppered, hback] using ih hds ns
      · simpa [hlowered, htwice] using ih hds ns

theorem digits?_facts {cs ds : List Char} (h : digits? cs = some ds) :
    ds.length = 40 ∧ ∀ d ∈ ds, isHexDigit d = true := by
  simp only [digits?, Option.ite_none_right_eq_some, Option.some.injEq, Bool.and_eq_true, beq_iff_eq,
    List.all_eq_true] at h
  obtain ⟨⟨hlength, hdigits⟩, rfl⟩ := h
  exact ⟨hlength, hdigits⟩

theorem digits?_marked {ds : List Char} (hlength : ds.length = 40) (hds : ∀ d ∈ ds, isHexDigit d = true) :
    digits? ('0' :: 'x' :: ds) = some ds := by
  simp [digits?, hlength, List.all_eq_true.mpr hds]

/-- **Checksummed forms are fixed.** -/
theorem ofText?_checksummed (hash : CaseHash) {ds : List Char} (hlength : ds.length = 40)
    (hds : ∀ d ∈ ds, isHexDigit d = true) :
    ofText? hash (checksummed hash ds) = some (checksummed hash ds) := by
  obtain ⟨hcased, hlowered⟩ := applyCase_facts hds (hash (ds.map lowerDigit))
  have hblank : ∀ c ∈ '0' :: 'x' :: applyCase (ds.map lowerDigit) (hash (ds.map lowerDigit)),
      isBlank c = false := by
    simp only [List.mem_cons, forall_eq_or_imp]
    exact ⟨rfl, rfl, fun c hc => (isHexDigit_facts (hcased c hc)).2.2.2.2⟩
  rw [ofText?, checksummed, ofString_ofList, trim_ofChars hblank, chars?_ofChars, Option.bind_some,
    digits?_marked (by simpa using hlength) hcased, Option.map_some, checksummed, hlowered]

/-! ## Addresses that are read -/

theorem applyCase_caseless {cs : List Char} (h : ∀ c ∈ cs, upperDigit c = c) (ns : List Nat) : applyCase cs ns = cs := by
  induction cs generalizing ns with
  | nil => rfl
  | cons c cs ih =>
    rw [List.forall_mem_cons] at h
    cases ns with
    | nil => rw [applyCase, ih h.2]
    | cons n ns => rw [applyCase, ih h.2, h.1, ite_self]

/-- Digits without letter case are left as they are. -/
theorem checksummed_caseless (hash : CaseHash) {ds : List Char} (h : ∀ d ∈ ds, lowerDigit d = d ∧ upperDigit d = d) :
    checksummed hash ds = String.ofList ('0' :: 'x' :: ds) := by
  have hlowered : ds.map lowerDigit = ds := (List.map_congr_left fun d hd => (h d hd).1).trans (List.map_id ds)
  rw [checksummed, hlowered, applyCase_caseless fun d hd => (h d hd).2]

theorem zero_eq : zero = checksummed keccakCase (List.replicate 40 '0') := by
  rw [checksummed_caseless _ fun d hd => by rw [List.eq_of_mem_replicate hd]; exact ⟨rfl, rfl⟩]
  rfl

theorem exists_of_parse {v : Json} {a : String} (h : parse v = .ok a) :
    ∃ ds : List Char, ds.length = 40 ∧ (∀ d ∈ ds, isHexDigit d = true) ∧ a = checksummed keccakCase ds := by
  unfold parse parseWith at h
  split at h
  · cases h
    refine ⟨List.replicate 40 '0', List.length_replicate, fun d hd => ?_, zero_eq⟩
    rw [List.eq_of_mem_replicate hd]
    rfl
  · split at h
    · rename_i t _
      unfold ofText? at h
      rcases hds : (trim t).chars?.bind digits? with _ | ds <;> rw [hds] at h
      · cases h
      · cases h
        obtain ⟨cs, -, hcs⟩ := Option.bind_eq_some_iff.mp hds
        obtain ⟨hlength, hdigits⟩ := digits?_facts hcs
        exact ⟨ds, hlength, hdigits, rfl⟩
    · cases h

theorem parseText_of_ofText? {t : Text} {a : String} (h : ofText? keccakCase t = some a)
    (hne : t.isEmpty = false) : parseText t = .ok a := by
  simp [parseText, parse, parseWith, Json.isGiven, hne, h]

theorem parseText_checksummed {ds : List Char} (hlength : ds.length = 40)
    (hds : ∀ d ∈ ds, isHexDigit d = true) :
    parseText (checksummed keccakCase ds) = .ok (checksummed keccakCase ds) := by
  refine parseText_of_ofText? (ofText?_checksummed _ hlength hds) ?_
  rw [checksummed, ofString_ofList]
  rfl

theorem isChecksummed_checksummed {ds : List Char} (hlength : ds.length = 40)
    (hds : ∀ d ∈ ds, isHexDigit d = true) : IsChecksummed (checksummed keccakCase ds) :=
  ⟨_, parseText_checksummed hlength hds, rfl⟩

theorem parse_parsed {v : Json} {a : String} (h : parse v = .ok a) : parse (.str a) = .ok a := by
  obtain ⟨ds, hlength, hds, rfl⟩ := exists_of_parse h
  exact parseText_checksummed hlength hds

/-- **Every address that is read is in its checksummed form.** -/
theorem isChecksummed_of_parse {v : Json} {a : String} (h : parse v = .ok a) : IsChecksummed a := by
  obtain ⟨ds, hlength, hds, rfl⟩ := exists_of_parse h
  exact isChecksummed_checksummed hlength hds

theorem isChecksummed_zero : IsChecksummed zero := isChecksummed_of_parse (v := .null) rfl

theorem IsChecksummed.chars {t : Text} (h : IsChecksummed t) :
    ∃ cs, t = ofChars ('0' :: 'x' :: cs) ∧ ∀ c ∈ cs, isHexDigit c = true := by
  obtain ⟨a, hread, rfl⟩ := h
  obtain ⟨ds, -, hds, rfl⟩ := exists_of_parse hread
  exact ⟨_, by rw [checksummed, ofString_ofList], (applyCase_facts hds _).1⟩

theorem isEmpty_of_parse {v : Json} {a : String} (h : parse v = .ok a) : (ofString a).isEmpty = false := by
  obtain ⟨cs, hcs, -⟩ := (isChecksummed_of_parse h).chars
  rw [hcs]
  rfl

end AssertionReplay.Address
