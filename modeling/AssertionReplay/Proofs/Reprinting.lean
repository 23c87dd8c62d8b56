/-
What was read of a payload, written again.

There are many spellings of a record, and reading leaves one of them: records
that were read are normal, so all that writing them asks for is a numeral for
each of their numbers. They come back from both forms as they are
(`parsed_records_read_back`). The short form also needs a numeral for how many
they are; but a text holds at most about twice as many records as it has
letters (`length_le_of_parseOutput`).
-/
import AssertionReplay.Proofs.Channel
import Mathlib.Algebra.Group.Int.Defs

namespace AssertionReplay

open Text

/-! ## How many records a text holds -/

namespace Json

/-- Each element of an array takes one of the steps that reading may take. -/
theorem length_items? {fuel : Nat} {ls rest : List Letter} {done vs : List Json}
    (h : items? fuel ls done = some (vs, rest)) : vs.length ≤ done.length + fuel := by
  induction fuel generalizing ls done with
  | zero => cases h
  | succ fuel ih =>
    unfold items? at h
    split at h
    · cases h
    · split at h
      · have hmore := ih h
        rw [List.length_cons] at hmore
        omega
      · cases h
        simp
      · cases h

theorem unsigned?_ne_arr {negative : Bool} {ls rest : List Letter} {vs : List Json} :
    unsigned? negative ls ≠ some (.arr vs, rest) := by
  intro h
  obtain ⟨whole, -, h⟩ := Option.bind_eq_some_iff.mp h
  dsimp only at h
  split at h
  · split at h <;> cases h
  · cases h

theorem scalar?_ne_arr {ls rest : List Letter} {vs : List Json} : scalar? ls ≠ some (.arr vs, rest) := by
  intro h
  have hword : ∀ {v : Json} {rest? : Option (List Letter)}, rest?.map (v, ·) = some (.arr vs, rest) → v = .arr vs := by
    intro v rest? h
    obtain ⟨_, -, heq⟩ := Option.map_eq_some_iff.mp h
    exact (Prod.ext_iff.mp heq).1
  unfold scalar? at h
  split at h
  case h_7 => exact unsigned?_ne_arr h
  case h_8 => exact unsigned?_ne_arr h
  all_goals cases hword h

theorem length_of_value? {fuel : Nat} {ls rest : List Letter} {vs : List Json}
    (h : value? fuel ls = some (.arr vs, rest)) : vs.length ≤ fuel := by
  cases fuel with
  | zero => cases h
  | succ fuel =>
    unfold value? at h
    split at h
    · obtain ⟨_, -, heq⟩ := Option.map_eq_some_iff.mp h
      cases heq
    · split at h
      · cases h
        simp
      · obtain ⟨_, hitems, heq⟩ := Option.map_eq_some_iff.mp h
        cases heq
        have hlength := length_items? hitems
        rw [List.length_nil] at hlength
        omega
    · split at h
      · cases h
      · obtain ⟨_, -, heq⟩ := Option.map_eq_some_iff.mp h
        cases heq
    · exact absurd h scalar?_ne_arr

theorem length_of_parse? {t : Text} {vs : List Json} (h : parse? t = some (.arr vs)) :
    vs.length ≤ 2 * t.length + 2 := by
  unfold parse? at h
  split at h
  · rename_i v rest hvalue
    split at h
    · cases h
      exact length_of_value? hvalue
    · cases h
  · cases h

end Json

namespace Payload

variable {rs : List Record}

theorem length_le_of_parseJson {payload : Text} (h : parseJson payload = .ok rs) :
    rs.length ≤ 2 * payload.length + 2 := by
  unfold parseJson at h
  split at h
  · cases h
  · rename_i items hitems
    rw [← (recordsOfObjects_eq_ok_iff.mp h).length_eq]
    exact Json.length_of_parse? hitems
  · cases h

theorem length_recordsOf {width count : Nat} {extended : Bool} {fields : List Text}
    (h : recordsOf width extended count fields = .ok rs) : rs.length = count := by
  induction count generalizing fields rs with
  | zero =>
    cases h
    rfl
  | succ count ih =>
    obtain ⟨r, rest, -, hrest, rfl⟩ := recordsOf_succ_ok h
    rw [List.length_cons, ih hrest]

theorem length_splitBars (ls : List Letter) : (splitBars ls).length ≤ ls.length + 1 := by
  induction ls with
  | nil => simp [splitBars]
  | cons l ls ih =>
    unfold splitBars
    split
    · simpa using ih
    · split
      · rename_i part parts hparts
        rw [hparts] at ih
        simp only [List.length_cons] at ih ⊢
        omega
      · simp

theorem length_trim (t : Text) : (trim t).letters.length ≤ t.letters.length := by
  have hright := List.rdropWhile_prefix (Letter.satisfies isBlank) (t.letters.dropWhile (Letter.satisfies isBlank))
  exact hright.length_le.trans (List.dropWhile_sublist _).length_le

/-- A payload that declares more records than it has fields for is not read. -/
theorem length_le_of_parseSimple {payload : Text} (h : parseSimple payload = .ok rs) :
    rs.length ≤ payload.length := by
  have hfields : (((splitBars (trim payload).letters).map Text.mk).drop 1).length ≤ payload.length := by
    have hsplit := length_splitBars (trim payload).letters
    have htrim := length_trim payload
    rw [List.length_drop, List.length_map]
    show _ ≤ payload.letters.length
    omega
  obtain ⟨count, -, h⟩ := bind_eq_ok_iff.mp h
  split at h
  · cases h
    simp
  split at h
  · rename_i hwide
    rw [length_recordsOf h]
    simp only [extendedFields] at hwide
    omega
  split at h
  · rename_i hnarrow
    rw [length_recordsOf h]
    simp only [legacyFields] at hnarrow
    omega
  · split at h <;> cases h

theorem length_splitAt? {part ls before after : List Letter} (h : splitAt? part ls = some (before, after)) :
    before.length + after.length ≤ ls.length := by
  induction ls generalizing before with
  | nil =>
    unfold splitAt? at h
    split at h <;> cases h
    simp
  | cons l ls ih =>
    unfold splitAt? at h
    split at h
    · cases h
      simp
    · obtain ⟨⟨b, a⟩, hsplit, heq⟩ := Option.map_eq_some_iff.mp h
      cases heq
      have hrest := ih hsplit
      simp only [List.length_cons]
      omega

theorem length_extract (output : Text) : (extract output).length ≤ output.length := by
  unfold extract
  dsimp only
  split
  · rename_i payload hpayload
    obtain ⟨⟨_, afterFirst⟩, hfirst, hpayload⟩ := Option.bind_eq_some_iff.mp hpayload
    obtain ⟨⟨_, afterSecond⟩, hsecond, hpayload⟩ := Option.bind_eq_some_iff.mp hpayload
    obtain ⟨⟨found, _⟩, hthird, hpayload⟩ := Option.bind_eq_some_iff.mp hpayload
    cases hpayload
    have hend := List.rdropWhile_prefix (Letter.satisfies isBlank) found
    have h₁ := length_splitAt? hfirst
    have h₂ : _ + afterSecond.length ≤ afterFirst.length := length_splitAt? hsecond
    have h₃ : found.length + _ ≤ afterSecond.length := length_splitAt? hthird
    have hkept : (found.rdropWhile (Letter.satisfies isBlank)).length ≤ found.length := hend.length_le
    show (found.rdropWhile _).length ≤ output.letters.length
    omega
  · exact Nat.zero_le _

/-- **The number of records** is bounded by the length of the text they are read from. -/
theorem length_le_of_parseOutput {output : Text} (h : parseOutput output = .ok rs) :
    rs.length ≤ 2 * output.length + 2 := by
  have hextract := length_extract output
  unfold parseOutput at h
  dsimp only at h
  split at h
  · cases h
  split at h
  · have hlength := length_le_of_parseJson h
    omega
  · have hlength := length_le_of_parseSimple h
    omega

/-! ## What comes back -/

/-- What is read of canonical records in each form, by itself. -/
theorem written_canonical (h : ∀ r ∈ rs, r.Canonical) :
    (∃ written, writeSimple rs = .ok written ∧ (parseSimple written = .ok rs ↔ HasNumeral rs.length)) ∧
    ∃ written, writeJson rs = .ok written ∧ parseJson written = .ok rs := by
  obtain ⟨fss, hfss, hspelled⟩ := allFields_canonical h
  refine ⟨⟨Text.intercalate "|" (shortFields rs fss), ?_, parseSimple_short hspelled⟩,
    ⟨Json.write Json.ascii (.arr (fss.map objectOf)), ?_, parseJson_long hspelled⟩⟩
  · rw [writeSimple, hfss]
    rfl
  · rw [writeJson, hfss]
    rfl

theorem natCast_lt_limit_iff {n : Nat} : (n : Int) < 10 ^ decimalDigitLimit ↔ HasNumeral n := by
  have hpow : ((10 ^ decimalDigitLimit : Nat) : Int) = 10 ^ decimalDigitLimit := Int.natCast_pow 10 _
  rw [← hpow]
  exact Int.ofNat_lt

/-- Normal records are canonical if their numbers are below the first one without a numeral. -/
theorem canonical_of_below (h : ∀ r ∈ rs, r.Normal)
    (hbelow : ∀ r ∈ rs, ∀ q ∈ r.quantities, q.toInt < 10 ^ decimalDigitLimit) : ∀ r ∈ rs, r.Canonical := by
  intro r hr
  refine ⟨h r hr, fun q hq => ?_⟩
  obtain ⟨n, rfl⟩ := (h r hr).quantities q hq
  have hn := hbelow r hr _ hq
  rw [Quantity.toInt] at hn
  exact natCast_lt_limit_iff.mp hn

/-- **Reading normalises once.** Records that were read from any output, in either form and whatever
their spelling, are written in both forms, and each form is read as the same records, if their numbers
are below the first one without a numeral. The short form is so exactly if the number of records has a
numeral as well, and it has one unless the output is of about as many letters as there are numerals. -/
theorem parsed_records_read_back {output : Text} (h : parseOutput output = .ok rs)
    (hbelow : ∀ r ∈ rs, ∀ q ∈ r.quantities, q.toInt < 10 ^ decimalDigitLimit) :
    (∃ written, writeSimple rs = .ok written ∧ (parseSimple written = .ok rs ↔ HasNumeral rs.length) ∧
      (2 * output.length + 2 < 10 ^ decimalDigitLimit → parseSimple written = .ok rs)) ∧
    ∃ written, writeJson rs = .ok written ∧ parseJson written = .ok rs := by
  obtain ⟨⟨written, hwrite, hread⟩, hlong⟩ := written_canonical (canonical_of_below (parseOutput_normal h) hbelow)
  refine ⟨⟨written, hwrite, hread, fun hshort => hread.mpr ?_⟩, hlong⟩
  exact Nat.lt_of_le_of_lt (length_le_of_parseOutput h) hshort

/-- A short record between log lines: its count is an Arabic digit, its hash has a sign, white space, an
underscore and letters of both cases, its numbers are of both bases, and its data has a blank. -/
def oddOutput : Text :=
  "2 blocks\nTRANSACTION_DATA:START\nTRANSACTION_DATA:١| +0X_A |||0X1f|0xDE ad|20|1|9\nTRANSACTION_DATA:END\n"

def oddRecord : Record := {
  hash := "+0x_a", sender := Address.zero, recipient := Address.zero, value := .int 31, data := [0xde, 0xad]
  block := .int 20, index := .int 1, gasPrice := .int 9 }

theorem parsed_records_read_back_odd : parseOutput oddOutput = .ok [oddRecord] ∧
    (∀ r ∈ [oddRecord], ∀ q ∈ r.quantities, q.toInt < 10 ^ decimalDigitLimit) ∧
    ∃ written, writeJson [oddRecord] = .ok written ∧ parseJson written = .ok [oddRecord] := by
  have hread : parseOutput oddOutput = .ok [oddRecord] := by
    have hsome : (parseOutput oddOutput).toOption = some [oddRecord] := by decide +kernel
    cases hparse : parseOutput oddOutput with
    | error fault => rw [hparse] at hsome; cases hsome
    | ok rs => rw [hparse] at hsome; cases hsome; rfl
  have hbelow : ∀ r ∈ [oddRecord], ∀ q ∈ r.quantities, q.toInt < 10 ^ decimalDigitLimit := by
    intro r hr q hq
    have hsmall : ∀ r ∈ [oddRecord], ∀ q ∈ r.quantities, q.toInt = (q.toInt.toNat : Int) ∧ q.toInt.toNat < 10 ^ 2 := by
      decide
    rw [(hsmall r hr q hq).1]
    exact natCast_lt_limit_iff.mpr (hasNumeral_of_lt (by decide : 2 ≤ decimalDigitLimit) (hsmall r hr q hq).2)
  exact ⟨hread, hbelow, (parsed_records_read_back hread hbelow).2⟩

end Payload
end AssertionReplay
