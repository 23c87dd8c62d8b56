/-
What is printed for another process is what that process reads.

The first letter of a payload tells its form, and neither form is confused
with the frame, so canonical records come back from whatever output they are
printed in (`printed_records_read_back`). They are the only ones that do: what
is read from any output at all is normal, and what is written has numerals
(`written_and_read_iff`).
-/
import AssertionReplay.CommandLine.Tools
import AssertionReplay.Proofs.Forms

namespace AssertionReplay.Payload

open Text

variable {rs : List Record} {fss : List (List Text)}

/-! ## In a frame -/

/-- The form of a payload is told by its first letter. -/
theorem opensArray_cons {first : Letter} (hfirst : first.satisfies isBlank = false) (rest : List Letter) :
    opensArray ⟨first :: rest⟩ = decide (first = .char '[') := by
  rw [opensArray, List.dropWhile_cons_of_neg (by simp [hfirst])]
  split
  · rename_i h
    cases h
    rfl
  · rename_i h
    exact (decide_eq_false fun e => h rest (by rw [e])).symm

theorem parseOutput_of_payload {payload before : Text} (after : Text) (hbefore : ¬ HasMarker before)
    {first : Letter} (hfirst : payload.letters.head? = some first) (hfirst' : first.satisfies isBlank = false)
    (hpayload : ¬ HasMarker payload) (hend : Unpadded payload) :
    parseOutput (before ++ framed payload ++ after) =
      if first = .char '[' then parseJson payload else parseSimple payload := by
  have hextract := extract_framed after hbefore hpayload hend.rdropWhile
  obtain ⟨letters⟩ := payload
  obtain ⟨rest, rfl⟩ := List.head?_eq_some_iff.mp hfirst
  simp [parseOutput, hextract, Text.isEmpty, opensArray_cons hfirst']

theorem not_hasMarker_of_canonical (h : ∀ r ∈ rs, r.Canonical) {format : Format} {payload : Text}
    (hwrite : write format rs = .ok payload) : ¬ HasMarker payload := by
  refine not_hasMarker fun hT => ?_
  obtain ⟨r, hr, fields, hfields, t, ht, hmem⟩ := capital_of_write hwrite rfl hT
  obtain ⟨fields', hfields', hspelled⟩ := fieldsOf_canonical (h r hr)
  obtain rfl : fields' = fields := Except.ok.inj (hfields'.symm.trans hfields)
  obtain ⟨cs, rfl, -, hclean⟩ := hspelled.clean t ht
  exact hclean (by simpa using hmem)

/-- **Payloads of canonical records.** They are written in each form, and are read back from every
frame; but the short form needs a numeral for the number of records. -/
theorem write_canonical (h : ∀ r ∈ rs, r.Canonical) (format : Format) :
    ∃ payload, write format rs = .ok payload ∧ ∀ {before : Text} (after : Text), ¬ HasMarker before →
      (parseOutput (before ++ framed payload ++ after) = .ok rs ↔ (format = .simple → HasNumeral rs.length)) := by
  obtain ⟨fss, hfss, hspelled⟩ := allFields_canonical h
  cases format with
  | simple =>
    have hdigit : ∀ d < 10, (Letter.char (Nat.digitChar d)).satisfies isBlank = false ∧
        Letter.char (Nat.digitChar d) ≠ .char '[' := by decide
    obtain ⟨d, hd, hhead⟩ := head?_short rs fss
    have hwrite := write_simple hfss
    refine ⟨_, hwrite, fun {before} after hbefore => ?_⟩
    rw [parseOutput_of_payload after hbefore hhead (hdigit d hd).1 (not_hasMarker_of_canonical h hwrite)
      (unpadded_of_write hwrite), if_neg (hdigit d hd).2, parseSimple_short hspelled]
    simp
  | json =>
    have hhead : (Json.write Json.ascii (.arr (fss.map objectOf)) : Text).letters.head? = some (.char '[') := by
      rw [ofString, letters_ofChars, Json.toList_arr]
      rfl
    have hwrite := write_json hfss
    refine ⟨_, hwrite, fun {before} after hbefore => ?_⟩
    rw [parseOutput_of_payload after hbefore hhead (by decide) (not_hasMarker_of_canonical h hwrite)
      (unpadded_of_write hwrite), if_pos rfl, parseJson_long hspelled]
    simp

/-! ## What is read -/

theorem recordsOf_succ_ok {width : Nat} {extended : Bool} {count : Nat} {fields : List Text}
    (h : recordsOf width extended (count + 1) fields = .ok rs) :
    ∃ r rest, recordOf (fields.take width) extended = .ok r ∧
      recordsOf width extended count (fields.drop width) = .ok rest ∧ rs = r :: rest := by
  obtain ⟨r, hr, h⟩ := bind_eq_ok_iff.mp h
  obtain ⟨rest, hrest, h⟩ := bind_eq_ok_iff.mp h
  cases h
  exact ⟨r, rest, hr, hrest, rfl⟩

theorem forall_mem_recordsOf {P : Record → Prop} {width : Nat} {extended : Bool}
    (hP : ∀ fields r, recordOf fields extended = .ok r → P r) {count : Nat} {fields : List Text}
    (h : recordsOf width extended count fields = .ok rs) : ∀ r ∈ rs, P r := by
  induction count generalizing fields rs with
  | zero =>
    cases h
    simp
  | succ count ih =>
    obtain ⟨r, rest, hr, hrest, rfl⟩ := recordsOf_succ_ok h
    rw [List.forall_mem_cons]
    exact ⟨hP _ r hr, ih hrest⟩

theorem recordsOf_normal {width : Nat} {extended : Bool} {count : Nat} {fields : List Text}
    (h : recordsOf width extended count fields = .ok rs) : ∀ r ∈ rs, r.Normal :=
  forall_mem_recordsOf (fun _ _ => recordOf_normal) h

theorem recordsOfObjects_normal {vs : List Json} (h : recordsOfObjects vs = .ok rs) : ∀ r ∈ rs, r.Normal := by
  intro r hmem
  obtain ⟨v, -, hr⟩ := exists_of_forall₂ (recordsOfObjects_eq_ok_iff.mp h).flip hmem
  cases v <;> first | exact recordOf_normal hr | cases hr

theorem parseSimple_normal {payload : Text} (h : parseSimple payload = .ok rs) : ∀ r ∈ rs, r.Normal := by
  obtain ⟨count, -, h⟩ := bind_eq_ok_iff.mp h
  split at h
  · cases h
    simp
  split at h
  · exact recordsOf_normal h
  split at h
  · exact recordsOf_normal h
  · split at h <;> cases h

theorem parseJson_normal {payload : Text} (h : parseJson payload = .ok rs) : ∀ r ∈ rs, r.Normal := by
  unfold parseJson at h
  split at h
  · cases h
  · exact recordsOfObjects_normal h
  · cases h

/-- **Whatever output records are read from, they are normal.** -/
theorem parseOutput_normal {output : Text} (h : parseOutput output = .ok rs) : ∀ r ∈ rs, r.Normal := by
  unfold parseOutput at h
  dsimp only at h
  split at h
  · cases h
  split at h
  · exact parseJson_normal h
  · exact parseSimple_normal h

theorem canonical_of_allFields (hrs : ∀ r ∈ rs, r.Normal) (h : allFields rs = .ok fss) : ∀ r ∈ rs, r.Canonical := by
  induction rs generalizing fss with
  | nil => simp
  | cons r rs ih =>
    obtain ⟨fields, hfields, h⟩ := bind_eq_ok_iff.mp h
    obtain ⟨others, hothers, -⟩ := bind_eq_ok_iff.mp h
    rw [List.forall_mem_cons] at hrs ⊢
    exact ⟨canonical_of_fieldsOf hrs.1 hfields, ih hrs.2 hothers⟩

/-- **What comes back.** Records are read back from the frame they are written in exactly if all of
them are canonical, and in the short form their number has a numeral. -/
theorem written_and_read_iff (format : Format) :
    (∃ payload, write format rs = .ok payload ∧ parseOutput (framed payload) = .ok rs) ↔
      (∀ r ∈ rs, r.Canonical) ∧ (format = .simple → HasNumeral rs.length) := by
  have hframe : ∀ payload : Text, ⟨[]⟩ ++ framed payload ++ ⟨[]⟩ = framed payload := fun payload =>
    congrArg Text.mk (List.append_nil _)
  have hnone : ¬ HasMarker ⟨[]⟩ := not_hasMarker (by simp)
  constructor
  · rintro ⟨payload, hwrite, hread⟩
    obtain ⟨fss, hfss⟩ := exists_of_write hwrite
    have hrs := canonical_of_allFields (parseOutput_normal hread) hfss
    obtain ⟨payload', hwrite', hiff⟩ := write_canonical hrs format
    obtain rfl : payload' = payload := Except.ok.inj (hwrite'.symm.trans hwrite)
    exact ⟨hrs, (hiff ⟨[]⟩ hnone).mp (by rwa [hframe])⟩
  · rintro ⟨hrs, hcount⟩
    obtain ⟨payload, hwrite, hiff⟩ := write_canonical hrs format
    exact ⟨payload, hwrite, by rw [← hframe, hiff _ hnone]; exact hcount⟩

/-! ## From one process to another -/

theorem ofName_name (format : Format) : Format.ofName (.str format.name) = .ok format := by
  cases format <;> rfl

theorem printPayload_of_write {format : Format} {payload : Text} (h : write format rs = .ok payload) (o : Outside)
    (j : Journal) : CommandLine.printPayload (.str format.name) rs o j =
      (.ok (), j ++ [.printed frameHead, .printed (frameBody payload)]) := by
  rw [CommandLine.printPayload, ofName_name, Act.lift_ok_bind, h, Act.lift_ok_bind]
  show (Except.ok (), j ++ [.printed frameHead] ++ [.printed (frameBody payload)]) = _
  rw [List.append_assoc]
  rfl

theorem printed_frame (payload : Text) :
    Journal.printed [.printed frameHead, .printed (frameBody payload)] = framed payload :=
  congrArg Text.mk (show [frameHead, frameBody payload].flatMap letters = _ by simp)

/-- **The channel is lossless.** For canonical records, printing succeeds in each form, and reading any
output that what was printed stands in, after text without a marker and before any text, gives the
same records in the same order. In the short form this needs a numeral for their number, which fails
from ten to the power of 4300 records on. -/
theorem printed_records_read_back (h : ∀ r ∈ rs, r.Canonical) (format : Format) :
    ∃ written : Journal,
      (∀ o j, CommandLine.printPayload (.str format.name) rs o j = (.ok (), j ++ written)) ∧
      ∀ before after : Text, ¬ HasMarker before →
        (parseOutput (before ++ written.printed ++ after) = .ok rs ↔
          (format = .simple → HasNumeral rs.length)) := by
  obtain ⟨payload, hwrite, hiff⟩ := write_canonical h format
  refine ⟨_, printPayload_of_write hwrite, fun before after hbefore => ?_⟩
  rw [printed_frame]
  exact hiff after hbefore

/-- A call with call data and a fee limit, and a contract creation. -/
def sampleRecords : List Record :=
  let call : Record := {
    hash := "0x0a1b", sender := Address.checksummed Address.keccakCase (List.replicate 40 'a')
    recipient := Address.checksummed Address.keccakCase (List.replicate 40 'b')
    value := .int 7, data := [0xde, 0xad], block := .int 20, index := .int 1, gasPrice := .int 9
    gasLimit := .int 30, maxFee := .int 12, maxPriorityFee := .int 2 }
  [call, { call with hash := "0x0c", recipient := Address.zero, data := [], index := .int 2 }]

theorem canonical_sampleRecords : ∀ r ∈ sampleRecords, r.Canonical := by
  have haddress : ∀ c, Address.isHexDigit c = true →
      Address.IsChecksummed (Address.checksummed Address.keccakCase (List.replicate 40 c)) := fun c hc =>
    Address.isChecksummed_checksummed List.length_replicate fun d hd => by rwa [List.eq_of_mem_replicate hd]
  have hdigits : 2 ≤ decimalDigitLimit := by decide
  rw [sampleRecords, List.forall_mem_cons, List.forall_mem_singleton]
  exact ⟨.of_computed (by decide) (by decide) (haddress 'a' rfl) (haddress 'b' rfl) hdigits (by decide),
    .of_computed (by decide) (by decide) (haddress 'a' rfl) Address.isChecksummed_zero hdigits (by decide)⟩

/-- A log line before the frame, and nothing after it. -/
theorem printed_records_read_back_sample : (∀ r ∈ sampleRecords, r.Canonical) ∧ ¬ HasMarker "done\n" ∧
    ∃ written : Journal,
      (∀ o j, CommandLine.printPayload (.str Format.simple.name) sampleRecords o j = (.ok (), j ++ written)) ∧
      parseOutput ("done\n" ++ written.printed ++ "") = .ok sampleRecords := by
  have hbefore : ¬ HasMarker "done\n" := not_hasMarker (by decide)
  obtain ⟨written, hprint, hread⟩ := printed_records_read_back canonical_sampleRecords .simple
  exact ⟨canonical_sampleRecords, hbefore, written, hprint,
    (hread "done\n" "" hbefore).mpr fun _ => hasNumeral_digit (by decide)⟩

end AssertionReplay.Payload
