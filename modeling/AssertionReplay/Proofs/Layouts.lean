/-
The two layouts of a payload.

A payload has eleven fields for each record, or only the first eight for each,
and what tells them apart is how many fields there are for the number of
records that it declares. Canonical records are read back from either layout,
from the shorter one without their limits, and no payload is written in both
(`layouts_read_back`).
-/
import AssertionReplay.Proofs.Channel

namespace AssertionReplay

open Text

/-- The record with its gas limit and its fee limits at zero. -/
def Record.withoutLimits (r : Record) : Record :=
  { r with gasLimit := .int 0, maxFee := .int 0, maxPriorityFee := .int 0 }

namespace Payload

variable {r : Record} {rs : List Record} {fields : List Text} {fss : List (List Text)}

/-- The count and the first eight fields of each record, with bars between them. -/
def writeLegacy (rs : List Record) : Except Fault Text := do
  let fields ← allFields rs
  return Text.intercalate "|" (decimal rs.length :: (fields.map (·.take legacyFields)).flatten)

/-! ## Fields that are read as they stand -/

/-- The text holds no bar, and no white space at its ends. -/
structure Neat (t : Text) : Prop where
  barless : Barless t
  trimmed : trim t = t

theorem neat_decimal (n : Nat) : Neat (decimal n) := ⟨(clean_decimal n).barless, trim_decimal n⟩

theorem neat_address {t : Text} (h : Address.IsChecksummed t) : Neat t := by
  refine ⟨(clean_address h).barless, ?_⟩
  obtain ⟨cs, rfl, hcs⟩ := h.chars
  refine trim_ofChars fun c hc => ?_
  rcases List.mem_cons.mp hc with rfl | hc
  · rfl
  rcases List.mem_cons.mp hc with rfl | hc
  · rfl
  · exact (Address.isHexDigit_facts (hcs c hc)).2.2.2.2

theorem neat_hash (h : r.Normal) : Neat r.hash := by
  obtain ⟨n, hn, -⟩ := h.number
  refine ⟨(clean_hash hn).barless, ?_⟩
  rw [← h.hash]
  exact trim_lower_trim r.hash

/-- **The fields of a canonical record are neat.** -/
theorem neat_fieldsOf (h : r.Canonical) (hfields : fieldsOf r = .ok fields) : ∀ t ∈ fields, Neat t := by
  obtain ⟨ns, hns⟩ := exists_written h
  obtain rfl := Except.ok.inj ((fieldsOf_rowOf hns).symm.trans hfields)
  exact forall_mem_rowOf (readAs_decimals hns) (neat_hash h.toNormal) (neat_address h.sender)
    (neat_address h.recipient) ⟨by simp [Barless, ofString], rfl⟩
    ⟨(clean_hexOfBytes _).barless, Field.trim_hexOfBytes _⟩ (forall_mem_decimals neat_decimal)

theorem neat_allFields (h : ∀ r ∈ rs, r.Canonical) (hfss : allFields rs = .ok fss) :
    ∀ fields ∈ fss, ∀ t ∈ fields, Neat t := by
  intro fields hfields
  obtain ⟨r, hr, heq⟩ := exists_of_forall₂ (forall₂_allFields hfss).flip hfields
  exact neat_fieldsOf (h r hr) heq

theorem fieldsIn_counted (n : Nat) (h : ∀ t ∈ fields, Neat t) :
    fieldsIn (Text.intercalate "|" (decimal n :: fields)) = (decimal n : Text) :: fields := by
  have hneat : ∀ t ∈ (decimal n : Text) :: fields, Neat t := List.forall_mem_cons.mpr ⟨neat_decimal n, h⟩
  rw [fieldsIn_intercalate (List.cons_ne_nil _ _) fun t ht => (hneat t ht).barless]
  exact trimEnds_eq_self (fun t ht => (ends_of_trim (hneat t (List.mem_of_mem_head? ht)).trimmed).1)
    fun t ht => (ends_of_trim (hneat t (List.mem_of_mem_getLast? ht)).trimmed).2

/-! ## The shorter layout -/

/-- Where eleven fields are read as a record, the first eight are read as the record without its
limits. -/
theorem Reads.legacy (h : Reads fields true r) : Reads (fields.take legacyFields) false r.withoutLimits := by
  have hfield : ∀ i < legacyFields, (fields.take legacyFields).getD i "" = fields.getD i "" := by
    intro i hi
    rw [List.getD_eq_getElem?_getD, List.getD_eq_getElem?_getD, List.getElem?_take_of_lt hi]
  obtain ⟨hhash, hnumber, hsender, hrecipient, hdata, hnumbers, -⟩ := h
  refine ⟨?_, hnumber, ?_, ?_, ?_, ?_, ?_⟩
  · rwa [hfield 0 (by decide)]
  · rwa [hfield 1 (by decide)]
  · rwa [hfield 2 (by decide)]
  · rwa [hfield 4 (by decide)]
  · simp only [List.forall₂_cons, List.forall₂_nil_right_iff, and_true] at hnumbers ⊢
    rwa [hfield 3 (by decide), hfield 5 (by decide), hfield 6 (by decide), hfield 7 (by decide)]
  · simp [Record.withoutLimits]

theorem Spelled.legacyRow (h : Spelled fields r) :
    Row legacyFields false (fields.take legacyFields) r.withoutLimits where
  length := by
    rw [List.length_take, h.length]
    rfl
  read := recordOf_eq_ok_iff.mpr (recordOf_eq_ok_iff.mp h.read).legacy

theorem legacyRows (h : List.Forall₂ Spelled fss rs) : List.Forall₂ (Row legacyFields false)
    (fss.map (·.take legacyFields)) (rs.map Record.withoutLimits) := by
  rw [List.forall₂_map_left_iff, List.forall₂_map_right_iff]
  exact h.imp fun _ _ hspelled => hspelled.legacyRow

theorem neat_legacyRows (h : ∀ r ∈ rs, r.Canonical) (hfss : allFields rs = .ok fss) :
    ∀ t ∈ (fss.map (·.take legacyFields)).flatten, Neat t := by
  intro t ht
  obtain ⟨row, hrow, ht⟩ := List.mem_flatten.mp ht
  obtain ⟨fields, hfields, rfl⟩ := List.mem_map.mp hrow
  exact neat_allFields h hfss fields hfields t (List.mem_of_mem_take ht)

/-- **The shorter layout is read** as the records without their limits, if their number has a numeral. -/
theorem parseSimple_legacy (h : ∀ r ∈ rs, r.Canonical) (hfss : allFields rs = .ok fss)
    (hspelled : List.Forall₂ Spelled fss rs) :
    parseSimple (Text.intercalate "|" (decimal rs.length :: (fss.map (·.take legacyFields)).flatten)) =
      .ok (rs.map Record.withoutLimits) ↔ HasNumeral rs.length := by
  have hfields := fieldsIn_counted rs.length (neat_legacyRows h hfss)
  by_cases hn : HasNumeral rs.length
  · have hread := readFields_legacy (legacyRows hspelled)
    rw [List.length_map] at hread
    simp only [hn, iff_true]
    exact (parseSimple_of_fieldsIn hfields (countOf_decimal hn)).trans hread
  · simp [hn, parseSimple_of_badCount hfields (countOf_decimal_error hn)]

/-- **Both layouts are read back, and told apart.** For canonical records, at least one, each layout can
be written. The one with eleven fields is read as the records themselves, and the one with eight as the
records without their limits, as many as there are, each exactly if their number has a numeral, which
fails from ten to the power of 4300 records on. What is written with eight fields for each record is
written with eleven for no records at all. -/
theorem layouts_read_back (h : ∀ r ∈ rs, r.Canonical) (hne : rs ≠ []) :
    ∃ full legacy, writeSimple rs = .ok full ∧ writeLegacy rs = .ok legacy ∧
      (parseSimple full = .ok rs ↔ HasNumeral rs.length) ∧
      (parseSimple legacy = .ok (rs.map Record.withoutLimits) ↔ HasNumeral rs.length) ∧
      ∀ others, (∀ r ∈ others, r.Canonical) → writeSimple others ≠ .ok legacy := by
  obtain ⟨fss, hfss, hspelled⟩ := allFields_canonical h
  refine ⟨_, _, write_simple hfss, by rw [writeLegacy, hfss]; rfl, parseSimple_short hspelled,
    parseSimple_legacy h hfss hspelled, fun others hothers hwrite => ?_⟩
  obtain ⟨fss', hfss', hspelled'⟩ := allFields_canonical hothers
  have hsame := Except.ok.inj ((write_simple hfss').symm.trans hwrite)
  have hfields := fieldsIn_short hspelled'
  rw [hsame, fieldsIn_counted rs.length (neat_legacyRows h hfss), shortFields, List.cons.injEq] at hfields
  have hcount : rs.length = others.length := decimal_inj hfields.1
  have hlegacy := length_rows (legacyRows hspelled)
  rw [hfields.2, length_rows (hspelled'.imp fun _ _ hs => hs.row), List.length_map] at hlegacy
  have hpos : 0 < rs.length := List.length_pos_iff.mpr hne
  simp only [legacyFields, extendedFields] at hlegacy
  omega

/-- A call and a contract creation are read back from eleven fields each, and from eight. -/
theorem layouts_read_back_sample : (∀ r ∈ sampleRecords, r.Canonical) ∧ sampleRecords ≠ [] ∧
    ∃ full legacy, writeSimple sampleRecords = .ok full ∧ writeLegacy sampleRecords = .ok legacy ∧
      parseSimple full = .ok sampleRecords ∧
      parseSimple legacy = .ok (sampleRecords.map Record.withoutLimits) := by
  have hne : sampleRecords ≠ [] := List.cons_ne_nil _ _
  have hcount : HasNumeral sampleRecords.length := hasNumeral_digit (by decide)
  obtain ⟨full, legacy, hfull, hlegacy, hread, hread', -⟩ := layouts_read_back canonical_sampleRecords hne
  exact ⟨canonical_sampleRecords, hne, full, legacy, hfull, hlegacy, hread.mpr hcount, hread'.mpr hcount⟩

end Payload
end AssertionReplay
