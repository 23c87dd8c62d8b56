/-
A payload that lost fields at its end.

Where a payload in the short form is cut, what is left has too few fields for
full records, and it is refused, or it has enough for short ones and is read
as such (`truncated_payloads`). A single record is then what it was, without
its limits. Two or more are cut at the wrong places: the limits of the first
stand where the hash and the addresses of the second are looked for, and
digits are an address only if there are forty of them.
-/
import AssertionReplay.Proofs.Layouts
import AssertionReplay.Proofs.Refusal
import AssertionReplay.Proofs.Reprinting

namespace AssertionReplay

open Text

/-! ## Digits that are read as an address -/

namespace Address

theorem digitChar_address : ∀ d < 10, Nat.digitChar d ≠ 'x' ∧ Nat.digitChar d ≠ 'X' ∧
    isHexDigit (Nat.digitChar d) = true ∧ lowerDigit (Nat.digitChar d) = Nat.digitChar d ∧
    upperDigit (Nat.digitChar d) = Nat.digitChar d := by decide

theorem digits?_decimal (n : Nat) : digits? (digitChars 10 n) =
    if (digitChars 10 n).length = 40 then some (digitChars 10 n) else none := by
  have hfacts : ∀ c ∈ digitChars 10 n, c ≠ 'x' ∧ c ≠ 'X' ∧ isHexDigit c = true := by
    intro c hc
    obtain ⟨d, hd, rfl⟩ := mem_digitChars hc
    obtain ⟨hx, hX, hhex, -⟩ := digitChar_address d hd
    exact ⟨hx, hX, hhex⟩
  unfold digits?
  dsimp only
  split
  · rename_i hcs
    exact absurd rfl (hfacts 'x' (by simp [hcs])).1
  · rename_i hcs
    exact absurd rfl (hfacts 'X' (by simp [hcs])).2.1
  · simp [List.all_eq_true.mpr fun c hc => (hfacts c hc).2.2]

theorem forty_digits_iff {n : Nat} : (digitChars 10 n).length = 40 ↔ 10 ^ 39 ≤ n ∧ n < 10 ^ 40 := by
  have hupper : (digitChars 10 n).length ≤ 40 ↔ n < 10 ^ 40 := Nat.length_toDigits_le_iff (by decide) (by decide)
  have hlower : (digitChars 10 n).length ≤ 39 ↔ n < 10 ^ 39 := Nat.length_toDigits_le_iff (by decide) (by decide)
  omega

/-- **Decimal digits are an address if there are forty of them.** -/
theorem parseText_decimal {n : Nat} {a : String} : parseText (decimal n) = .ok a ↔
    (10 ^ 39 ≤ n ∧ n < 10 ^ 40) ∧ String.ofList ('0' :: 'x' :: digitChars 10 n) = a := by
  have hgiven : (Json.str (decimal n)).isGiven = true := by
    rw [ofString_decimal]
    simp [Json.isGiven, Text.isEmpty, digitChars_ne_nil]
  have hcaseless : ∀ c ∈ digitChars 10 n, lowerDigit c = c ∧ upperDigit c = c := by
    intro c hc
    obtain ⟨d, hd, rfl⟩ := mem_digitChars hc
    exact (digitChar_address d hd).2.2.2
  simp only [parseText, parse, parseWith, hgiven, Bool.not_true, Bool.false_eq_true, if_false, ofText?, trim_decimal]
  rw [ofString_decimal, chars?_ofChars, Option.bind_some, digits?_decimal, ← forty_digits_iff,
    ← checksummed_caseless keccakCase hcaseless]
  by_cases hlength : (digitChars 10 n).length = 40
  · simp [hlength]
  · simp [hlength]

end Address

namespace Payload

variable {r : Record} {rs rs' : List Record} {fields rest : List Text} {fss : List (List Text)} {k : Nat}

/-! ## Cutting fields -/

/-- The payload without the last `k` of the fields after its count. -/
def dropFields (k : Nat) (payload : Text) : Text :=
  match (splitBars payload.letters).map Text.mk with
  | count :: fields => Text.intercalate "|" (count :: fields.take (fields.length - k))
  | [] => payload

theorem dropFields_intercalate {count : Text} (h : ∀ t ∈ count :: fields, Barless t) (k : Nat) :
    dropFields k (Text.intercalate "|" (count :: fields)) =
      Text.intercalate "|" (count :: fields.take (fields.length - k)) := by
  rw [dropFields, parts_intercalate (List.cons_ne_nil _ _) h]

theorem fieldsIn_dropFields (h : ∀ r ∈ rs, r.Canonical) (hfss : allFields rs = .ok fss) (k : Nat) :
    fieldsIn (dropFields k (Text.intercalate "|" (shortFields rs fss))) =
      (decimal rs.length : Text) :: fss.flatten.take (fss.flatten.length - k) := by
  have hneat : ∀ t ∈ fss.flatten, Neat t := by
    intro t ht
    obtain ⟨fields, hfields, ht⟩ := List.mem_flatten.mp ht
    exact neat_allFields h hfss fields hfields t ht
  have hbarless : ∀ t ∈ shortFields rs fss, Barless t :=
    List.forall_mem_cons.mpr ⟨(neat_decimal _).barless, fun t ht => (hneat t ht).barless⟩
  rw [shortFields, dropFields_intercalate hbarless k]
  exact fieldsIn_counted rs.length fun t ht => hneat t (List.mem_of_mem_take ht)

theorem parseSimple_dropFields (h : ∀ r ∈ rs, r.Canonical) (hfss : allFields rs = .ok fss) (hn : HasNumeral rs.length)
    (k : Nat) : parseSimple (dropFields k (Text.intercalate "|" (shortFields rs fss))) =
      readFields rs.length (fss.flatten.take (fss.flatten.length - k)) :=
  parseSimple_of_fieldsIn (fieldsIn_dropFields h hfss k) (countOf_decimal hn)

/-! ## Rows that are cut at the wrong places -/

/-- The number has exactly forty decimal digits. -/
def FortyDigits (q : Quantity) : Prop := ∃ n : Nat, q = .int n ∧ 10 ^ 39 ≤ n ∧ n < 10 ^ 40

theorem limits_fieldsOf (h : r.Canonical) (hfields : fieldsOf r = .ok fields) : ∃ limit fee tip : Nat,
    r.gasLimit = .int limit ∧ r.maxFee = .int fee ∧ r.maxPriorityFee = .int tip ∧
      fields.drop legacyFields = decimals [limit, fee, tip] := by
  obtain ⟨ns, hns⟩ := exists_written h
  obtain rfl := Except.ok.inj ((fieldsOf_rowOf hns).symm.trans hfields)
  simp only [Record.quantities, List.forall₂_cons_right_iff, List.forall₂_nil_right_iff] at hns
  obtain ⟨_, _, -, ⟨_, _, -, ⟨_, _, -, ⟨_, _, -, ⟨limit, _, hlimit, ⟨fee, _, hfee, ⟨tip, _, htip, rfl, rfl⟩,
    rfl⟩, rfl⟩, rfl⟩, rfl⟩, rfl⟩, rfl⟩ := hns
  exact ⟨limit, fee, tip, hlimit.1, hfee.1, htip.1, rfl⟩

/-- Eight fields after the first eight begin with the limits of the first record. -/
theorem getD_shifted (hlength : fields.length = extendedFields) {m i : Nat} (hm : 2 * legacyFields ≤ m) (hi : i < 3) :
    ((((fields ++ rest).take m).drop legacyFields).take legacyFields).getD i "" =
      (fields.drop legacyFields).getD i "" := by
  simp only [legacyFields, extendedFields] at *
  rw [List.getD_eq_getElem?_getD, List.getD_eq_getElem?_getD, List.getElem?_take_of_lt (by omega),
    List.getElem?_drop, List.getElem?_take_of_lt (by omega), List.getElem?_append_left (by omega), List.getElem?_drop]

/-- What is read at the place of the second record must have a hash, and two addresses. -/
theorem forty_of_shifted (h : r.Canonical) (hfields : fieldsOf r = .ok fields) {m : Nat} (hm : 2 * legacyFields ≤ m)
    {second : Record}
    (hread : recordOf ((((fields ++ rest).take m).drop legacyFields).take legacyFields) false = .ok second) :
    r.gasLimit ≠ .int 0 ∧ FortyDigits r.maxFee ∧ FortyDigits r.maxPriorityFee := by
  obtain ⟨limit, fee, tip, hlimit, hfee, htip, hdrop⟩ := limits_fieldsOf h hfields
  obtain ⟨hhash, hnumber, ⟨sender, hsender, -⟩, ⟨recipient, hrecipient, -⟩, -⟩ := recordOf_eq_ok_iff.mp hread
  have hlength := length_fieldsOf hfields
  rw [getD_shifted hlength hm (by decide), hdrop] at hhash hsender hrecipient
  refine ⟨?_, ⟨fee, hfee, (Address.parseText_decimal.mp hsender).1⟩, ⟨tip, htip, (Address.parseText_decimal.mp hrecipient).1⟩⟩
  intro hzero
  obtain rfl : limit = 0 := by
    rw [hlimit, Quantity.int.injEq] at hzero
    exact_mod_cast hzero
  obtain ⟨n, hn, hpos⟩ := hnumber
  have hread : readInt? 16 (lower (trim (decimal (0 : Nat) : Text))) = some 0 := by decide
  rw [hhash] at hn
  exact hpos (Option.some.inj (hn.symm.trans hread))

/-! ## What is read of a payload that was cut -/

/-- Records that were read without limits, as many as there were, and the first of them as it was. That
there was more than one asks for limits of the first that can be taken for a hash and for addresses. -/
structure CutShort (rs rs' : List Record) : Prop where
  length : rs'.length = rs.length
  withoutLimits : ∀ r ∈ rs', r.withoutLimits = r
  head? : rs'.head? = rs.head?.map Record.withoutLimits
  shifted : 2 ≤ rs.length → ∀ r ∈ rs.head?, r.gasLimit ≠ .int 0 ∧ FortyDigits r.maxFee ∧ FortyDigits r.maxPriorityFee

theorem withoutLimits_of_recordOf {fields : List Text} {r : Record} (h : recordOf fields false = .ok r) :
    r.withoutLimits = r := by
  have hlimits := (recordOf_eq_ok_iff.mp h).limits
  simp only [Bool.false_eq_true, if_false, List.forall₂_cons, List.forall₂_nil_right_iff, and_true] at hlimits
  obtain ⟨hlimit, hfee, htip⟩ := hlimits
  rw [Record.withoutLimits, ← hlimit]
  cases r
  simp_all

/-- The first eight of the fields that are left are those of the first record. -/
theorem recordOf_cut (hspelled : Spelled fields r) (rest : List Text) {m : Nat} (hm : legacyFields ≤ m) :
    recordOf (((fields ++ rest).take m).take legacyFields) false = .ok r.withoutLimits := by
  have hrow : ((fields ++ rest).take m).take legacyFields = fields.take legacyFields := by
    rw [List.take_take, min_eq_left hm, List.take_append_of_le_length (by rw [hspelled.length]; decide)]
  rw [hrow]
  exact hspelled.legacyRow.read

theorem readFields_few {n : Nat} (hfew : fields.length < n * extendedFields) (h : readFields n fields = .ok rs) :
    n * legacyFields ≤ fields.length ∧ recordsOf legacyFields false n fields = .ok rs := by
  rw [readFields, if_neg (by omega)] at h
  split at h
  · exact ⟨by assumption, h⟩
  · split at h <;> cases h

theorem cutShort_of_recordsOf (h : ∀ r ∈ rs, r.Canonical) (hfss : allFields rs = .ok fss)
    (hspelled : List.Forall₂ Spelled fss rs) {m : Nat} (hm : rs.length * legacyFields ≤ m)
    (hread : recordsOf legacyFields false rs.length (fss.flatten.take m) = .ok rs') : CutShort rs rs' := by
  refine ⟨length_recordsOf hread, forall_mem_recordsOf (fun _ _ => withoutLimits_of_recordOf) hread, ?_, ?_⟩
  · cases hspelled with
    | nil =>
      cases hread
      rfl
    | @cons fields r fss rs hfirst _ =>
      obtain ⟨r', rest, hr', -, rfl⟩ := recordsOf_succ_ok hread
      simp only [List.length_cons, legacyFields] at hm
      rw [List.flatten_cons, recordOf_cut hfirst _ (by rw [legacyFields]; omega)] at hr'
      cases hr'
      rfl
  -- The row that is read second begins at the limits of the first record.
  · intro htwo
    cases hspelled with
    | nil => cases htwo
    | @cons fields r fss rs hfirst hothers =>
      obtain ⟨n, hn⟩ : ∃ n, rs.length = n + 1 := ⟨rs.length - 1, by simp only [List.length_cons] at htwo; omega⟩
      obtain ⟨_, _, -, hrest, -⟩ := recordsOf_succ_ok hread
      rw [hn] at hrest
      obtain ⟨second, _, hsecond, -, -⟩ := recordsOf_succ_ok hrest
      have hfields : fieldsOf r = .ok fields := (List.forall₂_cons.mp (forall₂_allFields hfss)).1
      rw [List.flatten_cons] at hsecond
      simp only [List.length_cons, legacyFields] at hm
      rintro r' ⟨⟩
      exact forty_of_shifted (h r (by simp)) hfields (by rw [legacyFields]; omega) hsecond

theorem parseSimple_single (h : r.Canonical) (hfss : allFields [r] = .ok fss) (hk : 1 ≤ k) (hfew : k ≤ 3) :
    parseSimple (dropFields k (Text.intercalate "|" (shortFields [r] fss))) = .ok [r.withoutLimits] := by
  have hone : HasNumeral [r].length := hasNumeral_of_lt (by decide : 1 ≤ decimalDigitLimit) (by simp)
  have hcanonical : ∀ r' ∈ [r], r'.Canonical := by simpa using h
  obtain ⟨fields, hfields, hspelled⟩ := fieldsOf_canonical h
  obtain rfl : fss = [fields] := by
    rw [allFields, hfields] at hfss
    exact (Except.ok.inj hfss).symm
  have hleft : (fields.take (fields.length - k)).length = 11 - k := by
    rw [List.length_take, hspelled.length, extendedFields]
    omega
  have hrow := recordOf_cut hspelled [] (m := fields.length - k)
    (by rw [hspelled.length, extendedFields, legacyFields]; omega)
  rw [List.append_nil] at hrow
  rw [parseSimple_dropFields hcanonical hfss hone, List.flatten_singleton, List.length_singleton, readFields, hleft,
    if_neg (by rw [extendedFields]; omega), if_pos (by rw [legacyFields]; omega), recordsOf, hrow]
  rfl

/-- **A payload that was cut.** For canonical records, at least one, and a payload of theirs that lost
one field or more at its end: what is wrong with it is told as a fault of the payload, unless it takes a
number without a numeral to tell; it is read only if at least eight fields are left for each record, and
then as `CutShort` tells; and a single record is read where no more than its limits are lost. -/
theorem truncated_payloads (h : ∀ r ∈ rs, r.Canonical) (hne : rs ≠ []) : ∃ payload, writeSimple rs = .ok payload ∧
    ∀ k, 1 ≤ k →
      (HasNumeral (rs.length * legacyFields) → FailsAs Fault.OfPayload (parseSimple (dropFields k payload))) ∧
      (∀ rs', parseSimple (dropFields k payload) = .ok rs' → k ≤ 3 * rs.length ∧ CutShort rs rs') ∧
      ∀ r, rs = [r] → k ≤ 3 → parseSimple (dropFields k payload) = .ok [r.withoutLimits] := by
  obtain ⟨fss, hfss, hspelled⟩ := allFields_canonical h
  refine ⟨_, write_simple hfss, fun k hk => ?_⟩
  have hfields := fieldsIn_dropFields h hfss k
  have hlength : fss.flatten.length = rs.length * extendedFields := length_rows (hspelled.imp fun _ _ hs => hs.row)
  have hpos : 0 < rs.length := List.length_pos_iff.mpr hne
  refine ⟨fun hnumeral => parseSimple_fails ?_, fun rs' hread => ?_, fun r hr hfew => ?_⟩
  · rintro ⟨count, hcount, -, hnot⟩
    rw [hfields, List.headD_cons] at hcount
    by_cases hn : HasNumeral rs.length
    · cases (countOf_decimal hn).symm.trans hcount
      exact hnot (by exact_mod_cast hnumeral)
    · cases (countOf_decimal_error hn).symm.trans hcount
  · by_cases hn : HasNumeral rs.length
    · have hleft : (fss.flatten.take (fss.flatten.length - k)).length = rs.length * extendedFields - k := by
        rw [List.length_take, hlength]
        omega
      rw [parseSimple_dropFields h hfss hn] at hread
      obtain ⟨hwide, hread⟩ := readFields_few (by rw [hleft, extendedFields]; omega) hread
      rw [hleft] at hwide
      refine ⟨by rw [extendedFields, legacyFields] at hwide; omega, ?_⟩
      exact cutShort_of_recordsOf h hfss hspelled (by rwa [hlength]) hread
    · cases (parseSimple_of_badCount hfields (countOf_decimal_error hn)).symm.trans hread
  · subst hr
    exact parseSimple_single (h r (by simp)) hfss hk hfew

/-- A payload of two records that lost its last field is refused. -/
theorem truncated_payloads_sample : (∀ r ∈ sampleRecords, r.Canonical) ∧ sampleRecords ≠ [] ∧
    ∃ payload, writeSimple sampleRecords = .ok payload ∧ ∃ e, parseSimple (dropFields 1 payload) = .error e ∧
      e.OfPayload := by
  have hne : sampleRecords ≠ [] := List.cons_ne_nil _ _
  obtain ⟨payload, hwrite, hcut⟩ := truncated_payloads canonical_sampleRecords hne
  obtain ⟨hfails, hread, -⟩ := hcut 1 (le_refl 1)
  refine ⟨canonical_sampleRecords, hne, payload, hwrite, ?_⟩
  rcases hparse : parseSimple (dropFields 1 payload) with e | rs'
  · exact ⟨e, rfl, hfails (hasNumeral_of_lt (by decide : 2 ≤ decimalDigitLimit) (by decide)) e hparse⟩
  · obtain ⟨n, hn, hlarge, -⟩ := ((hread rs' hparse).2.shifted (by decide) _ rfl).2.1
    have htwelve : (12 : Int) = n := Quantity.int.inj hn
    omega

/-- A contract creation whose fee limits have forty digits. -/
def creation : Record := {
  hash := "0x0a", sender := Address.zero, recipient := Address.zero, value := .int 7, data := []
  block := .int 20, index := .int 1, gasPrice := .int 9, gasLimit := .int 30, maxFee := .int (10 ^ 39)
  maxPriorityFee := .int (10 ^ 39) }

/-- Two of them. -/
def creations : List Record := [creation, { creation with hash := "0x0c" }]

/-- The eight fields after the first eight of their payload. -/
def shiftedRow : List Text :=
  [decimal (30 : Nat), decimal (10 ^ 39 : Nat), decimal (10 ^ 39 : Nat), "0x0c", Address.zero, "", "7", "0x"]

/-- The record that is read of these: the limits of the first one are its hash and its addresses. -/
def shiftedCreation : Record := {
  hash := "30", sender := "0x1000000000000000000000000000000000000000"
  recipient := "0x1000000000000000000000000000000000000000", value := .int 12, data := List.replicate 20 0
  block := .int 0, index := .int 7, gasPrice := .int 0 }

theorem canonical_creations : ∀ r ∈ creations, r.Canonical := by
  have hdigits : 40 ≤ decimalDigitLimit := by decide
  have hzero := Address.isChecksummed_zero
  rw [creations, List.forall_mem_cons, List.forall_mem_singleton]
  exact ⟨.of_computed (by decide) (by decide) hzero hzero hdigits (by decide),
    .of_computed (by decide) (by decide) hzero hzero hdigits (by decide)⟩

theorem row_shiftedCreation : Row legacyFields false shiftedRow shiftedCreation := by
  refine ⟨rfl, recordOf_eq_ok_iff.mpr ⟨by decide, ⟨48, by decide, by decide⟩, ?_, ?_, ?_, ?_, ?_⟩⟩
  · exact ⟨_, Address.parseText_decimal.mpr ⟨by decide, rfl⟩, by decide⟩
  · exact ⟨_, Address.parseText_decimal.mpr ⟨by decide, rfl⟩, by decide⟩
  · exact eq_ok_of_toOption (by decide)
  · have hread : ∀ {i : Nat} {n : Int}, (Field.quantityText (shiftedRow.getD i "")).toOption = some n →
        ∃ m, Field.quantityText (shiftedRow.getD i "") = .ok m ∧ Quantity.int n = .int m :=
      fun h => ⟨_, eq_ok_of_toOption h, rfl⟩
    exact .cons (hread (by decide)) (.cons (hread (by decide)) (.cons (hread (by decide)) (.cons (hread (by decide)) .nil)))
  · simp [shiftedCreation]

/-- **A payload that was cut need not be refused.** One record is read without its limits, and of two the
second is read from fields of the first. -/
theorem cut_creations_read : (∀ r ∈ creations, r.Canonical) ∧
    (∃ payload, writeSimple [creation] = .ok payload ∧
      parseSimple (dropFields 3 payload) = .ok [creation.withoutLimits]) ∧
    ∃ payload, writeSimple creations = .ok payload ∧
      parseSimple (dropFields 6 payload) = .ok [creation.withoutLimits, shiftedCreation] := by
  have hcanonical : creation.Canonical := canonical_creations creation (by simp [creations])
  obtain ⟨one, hone, -⟩ := allFields_canonical (List.forall_mem_singleton.mpr hcanonical)
  obtain ⟨fields, hfields, hspelled⟩ := fieldsOf_canonical hcanonical
  obtain ⟨two, htwo, -⟩ := allFields_canonical canonical_creations
  refine ⟨canonical_creations, ⟨_, write_simple hone, parseSimple_single hcanonical hone (by decide) (by decide)⟩,
    _, write_simple htwo, ?_⟩
  have hcut : two.flatten.take (two.flatten.length - 6) = [fields.take legacyFields, shiftedRow].flatten := by
    have hsame : (do
        let fields ← fieldsOf creation
        let two ← allFields creations
        return two.flatten.take (two.flatten.length - 6) == [fields.take legacyFields, shiftedRow].flatten) =
        Except.ok true := eq_ok_of_toOption (by decide +kernel)
    rw [hfields, htwo] at hsame
    exact beq_iff_eq.mp (Except.ok.inj hsame)
  rw [parseSimple_dropFields canonical_creations htwo (hasNumeral_digit (by decide)), hcut]
  exact readFields_legacy (.cons hspelled.legacyRow (.cons row_shiftedCreation .nil))

end Payload
end AssertionReplay
