/-
Numbers, in whatever way they are spelled.

A number can be given in decimal digits or, after a mark, in hexadecimal ones
of either case, with zeros in front and white space around it
(`Field.Spelling`). All of them are read as the number
(`Field.quantityText_spelling`), so that records are read from a payload of
either form whatever their numbers look like (`spellings_read_alike`). In the
long form a number may also be given as itself, and zero as null or not at
all.
-/
import AssertionReplay.Proofs.Channel

namespace AssertionReplay

open Text

/-! ## Numbers as text -/

namespace Field

/-- A number in decimal digits, no more of them than a numeral may have, or after a mark in hexadecimal
digits of either case; both with zeros in front. Zero may be nothing at all. -/
inductive Numeral : Nat → List Char → Prop
  | decimal (zeros n : Nat) (h : zeros + (digitChars 10 n).length ≤ decimalDigitLimit) :
      Numeral n (List.replicate zeros '0' ++ digitChars 10 n)
  | hexadecimal (zeros n : Nat) {x : Char} (hx : x = 'x' ∨ x = 'X') (cs : List Char)
      (h : cs.map Address.lowerDigit = List.replicate zeros '0' ++ digitChars 16 n) : Numeral n ('0' :: x :: cs)
  | empty : Numeral 0 []

/-- A number in one of these ways, with white space around it. -/
def Spelling (n : Nat) (t : Text) : Prop := ∃ before cs after, Numeral n cs ∧
  (∀ c ∈ before ++ after, isBlank c = true) ∧ t = ofChars (before ++ cs ++ after)

theorem Numeral.spelling {n : Nat} {cs : List Char} (h : Numeral n cs) : Spelling n (ofChars cs) :=
  ⟨[], cs, [], h, by simp, by simp⟩

theorem digit_of_lowerDigit {d : Nat} (hd : d < 16) {c : Char} (h : Address.lowerDigit c = Nat.digitChar d) :
    digitIn? 16 c = some d ∧ isBlank c = false ∧ c ≠ '|' := by
  unfold Address.lowerDigit at h
  split at h
  · rename_i hupper
    have htable : ∀ n < 26, ∀ d < 16, Char.ofNat (n + 65 + 32) = Nat.digitChar d →
        digitIn? 16 (Char.ofNat (n + 65)) = some d ∧ isBlank (Char.ofNat (n + 65)) = false ∧
          Char.ofNat (n + 65) ≠ '|' := by decide
    simp only [Bool.and_eq_true, decide_eq_true_eq] at hupper
    obtain ⟨n, hn⟩ : ∃ n, c.toNat = n + 65 := ⟨c.toNat - 65, by omega⟩
    rw [← Char.ofNat_toNat c]
    rw [hn] at h ⊢
    exact htable n (by omega) d hd h
  · subst h
    exact (by decide : ∀ d < 16, digitIn? 16 (Nat.digitChar d) = some d ∧ isBlank (Nat.digitChar d) = false ∧
      Nat.digitChar d ≠ '|') d hd

theorem exists_hexDigits {zeros n : Nat} {cs : List Char}
    (h : cs.map Address.lowerDigit = List.replicate zeros '0' ++ digitChars 16 n) :
    ∃ ds, ofDigits 16 ds = n ∧ cs ≠ [] ∧
      List.Forall₂ (fun c d => digitIn? 16 c = some d ∧ isBlank c = false ∧ c ≠ '|') cs ds := by
  obtain ⟨ds, hne, hds, heq, hv⟩ := exists_padded (by decide : 1 < 16) zeros n
  rw [heq] at h
  have hpairs : List.Forall₂ (fun c d => Address.lowerDigit c = Nat.digitChar d) cs ds := by
    have hsame := List.forall₂_eq_eq_eq ▸ h
    rwa [List.forall₂_map_left_iff, List.forall₂_map_right_iff] at hsame
  refine ⟨ds, hv, ?_, ?_⟩
  · rintro rfl
    exact hne (List.map_eq_nil_iff.mp h.symm)
  · exact forall₂_imp_of_mem hpairs fun d hd c => digit_of_lowerDigit (hds d hd)

theorem Numeral.chars {n : Nat} {cs : List Char} (h : Numeral n cs) : ∀ c ∈ cs, isBlank c = false ∧ c ≠ '|' := by
  cases h with
  | decimal zeros n h =>
    obtain ⟨ds, -, hds, hcs, -⟩ := exists_padded (by decide : 1 < 10) zeros n
    rw [hcs]
    exact List.forall_mem_map.mpr fun d hd => (by decide : ∀ d < 10, isBlank (Nat.digitChar d) = false ∧
      Nat.digitChar d ≠ '|') d (hds d hd)
  | hexadecimal zeros n hx cs h =>
    obtain ⟨ds, -, -, hdigits⟩ := exists_hexDigits h
    rw [List.forall_mem_cons, List.forall_mem_cons]
    refine ⟨by decide, by rcases hx with rfl | rfl <;> decide, fun c hc => ?_⟩
    obtain ⟨d, -, -, hfacts⟩ := exists_of_forall₂ hdigits hc
    exact hfacts
  | empty => simp

/-- **A numeral is read as its number.** -/
theorem Numeral.read {n : Nat} {cs : List Char} (h : Numeral n cs) : quantityText (ofChars cs) = .ok (n : Int) := by
  have htrim := trim_ofChars fun c hc => (h.chars c hc).1
  cases h with
  | decimal zeros n h =>
    obtain ⟨ds, hne, hds, hcs, hv⟩ := exists_padded (by decide : 1 < 10) zeros n
    have hlength : ds.length ≤ decimalDigitLimit := by
      have hsame := congrArg List.length hcs
      rw [List.length_append, List.length_replicate, List.length_map] at hsame
      omega
    rw [hcs, quantityText_digits hne hds, if_pos hlength, hv]
  | @hexadecimal zeros n x hx cs h =>
    obtain ⟨ds, hv, hne, hdigits⟩ := exists_hexDigits h
    have hread := readInt?_marked hx hne (hdigits.imp fun c d hc => ⟨hc.1, by simp [isNumeralBlank, hc.2.1]⟩)
    have hmark : isHexMarked (ofChars ('0' :: x :: cs)) = true := by
      rcases hx with rfl | rfl <;> simp [isHexMarked, Text.startsWith, ofString]
    have hbare : (ofChars ('0' :: x :: cs) == "0x") = false := by
      rw [beq_eq_false_iff_ne]
      intro heq
      have hlength := congrArg (fun t : Text => t.letters.length) heq
      simp only [letters_ofChars, List.map_cons, List.length_cons, List.length_map] at hlength
      exact hne (List.eq_nil_of_length_eq_zero (Nat.succ.inj (Nat.succ.inj hlength)))
    have hempty : (ofChars ('0' :: x :: cs)).isEmpty = false := rfl
    unfold quantityText hexText int
    rw [htrim]
    simp [hempty, hmark, hbare, hread, hv]
  | empty => rfl

/-- What a text is read as depends on what is left of it when it is trimmed. -/
theorem quantityText_of_trim {s t : Text} (h : trim s = trim t) {n : Int} (ht : quantityText t = .ok n) :
    quantityText s = .ok n := by
  unfold quantityText at ht ⊢
  dsimp only at ht ⊢
  rw [h]
  split at ht
  · rw [if_pos (by assumption)]
    exact ht
  rw [if_neg (by assumption)]
  split at ht
  · rw [if_pos (by assumption)]
    exact ht
  rw [if_neg (by assumption)]
  split at ht
  · cases ht
  · rw [if_neg (by assumption)]
    exact ht

/-- **A number is read whatever its spelling.** -/
theorem quantityText_spelling {n : Nat} {t : Text} (h : Spelling n t) : quantityText t = .ok (n : Int) := by
  obtain ⟨before, cs, after, hnumeral, hblank, rfl⟩ := h
  exact quantityText_of_trim (trim_padded hblank) hnumeral.read

theorem Spelling.barless {n : Nat} {t : Text} (h : Spelling n t) : Payload.Barless t := by
  obtain ⟨before, cs, after, hnumeral, hblank, rfl⟩ := h
  rw [Payload.Barless, letters_ofChars, List.mem_map_of_injective fun _ _ heq => Letter.char.inj heq]
  intro hmem
  rw [List.append_assoc, List.mem_append, List.mem_append] at hmem
  rcases hmem with hmem | hmem | hmem
  · exact absurd (hblank _ (List.mem_append_left _ hmem)) (by decide)
  · exact (hnumeral.chars _ hmem).2 rfl
  · exact absurd (hblank _ (List.mem_append_right _ hmem)) (by decide)

end Field

namespace Payload

open AssertionReplay.Field

variable {r : Record} {rs : List Record} {fields : List Text} {rows : List (List Text)}

/-! ## The short form -/

/-- The row of a record, with texts for its numbers that are what `S` says. -/
def RowOf (S : Text → Quantity → Prop) (fields : List Text) (r : Record) : Prop :=
  ∃ numbers, List.Forall₂ S numbers r.quantities ∧ fields = rowOf r numbers

/-- The text spells the number. -/
def SpelledAs (t : Text) (q : Quantity) : Prop := ∃ n : Nat, q = .int n ∧ Spelling n t

theorem SpelledAs.readAs {t : Text} {q : Quantity} (h : SpelledAs t q) : ReadAs t q := by
  obtain ⟨n, rfl, hspelling⟩ := h
  exact ⟨n, quantityText_spelling hspelling, rfl⟩

theorem ReadAs.trimEnd {t : Text} {q : Quantity} (h : ReadAs t q) : ReadAs (trimEnd t) q := by
  obtain ⟨n, hn, rfl⟩ := h
  exact ⟨n, quantityText_of_trim (trim_trimEnd t) hn, rfl⟩

theorem RowOf.row (hr : r.Normal) (h : RowOf ReadAs fields r) : Row extendedFields true fields r := by
  obtain ⟨numbers, hnumbers, rfl⟩ := h
  obtain ⟨_, _, _, _, _, _, _, -, hrow⟩ := rowOf_eq hnumbers
  exact ⟨by rw [hrow]; rfl, recordOf_rowOf hr hnumbers⟩

theorem RowOf.barless (hr : r.Normal) (h : RowOf SpelledAs fields r) : ∀ t ∈ fields, Barless t := by
  obtain ⟨numbers, hnumbers, rfl⟩ := h
  obtain ⟨n, hn, -⟩ := hr.number
  refine forall_mem_rowOf hnumbers (clean_hash hn).barless (clean_address hr.sender).barless
    (clean_address hr.recipient).barless (by simp [Barless, ofString]) (clean_hexOfBytes _).barless fun t ht => ?_
  obtain ⟨q, -, _, -, hspelling⟩ := exists_of_forall₂ hnumbers ht
  exact hspelling.barless

theorem trimLast_append {xs ys : List Text} (h : ys ≠ []) : trimLast (xs ++ ys) = xs ++ trimLast ys := by
  induction xs with
  | nil => rfl
  | cons x xs ih =>
    obtain ⟨y, more, hmore⟩ := List.exists_cons_of_ne_nil (List.append_ne_nil_of_right_ne_nil xs h)
    rw [List.cons_append, hmore, trimLast, ← hmore, ih, List.cons_append]

/-- What white space is trimmed from the end of a row is of its last number. -/
theorem RowOf.trimLast (h : RowOf ReadAs fields r) : RowOf ReadAs (trimLast fields) r := by
  obtain ⟨numbers, hnumbers, rfl⟩ := h
  obtain ⟨value, block, index, price, limit, fee, tip, rfl, hrow⟩ := rowOf_eq hnumbers
  refine ⟨[value, block, index, price, limit, fee, Payload.trimEnd tip], ?_, by rw [hrow]; rfl⟩
  simp only [Record.quantities, List.forall₂_cons] at hnumbers ⊢
  obtain ⟨hvalue, hblock, hindex, hprice, hlimit, hfee, htip, hnil⟩ := hnumbers
  exact ⟨hvalue, hblock, hindex, hprice, hlimit, hfee, htip.trimEnd, hnil⟩

theorem exists_trimLast (h : List.Forall₂ (RowOf ReadAs) rows rs) :
    ∃ rows', trimLast rows.flatten = rows'.flatten ∧ List.Forall₂ (RowOf ReadAs) rows' rs := by
  induction h with
  | nil => exact ⟨[], rfl, .nil⟩
  | @cons row r rows rs hrow hrows ih =>
    -- A row that others follow stays as it is.
    cases hrows with
    | nil => exact ⟨[_], by simp, .cons hrow.trimLast .nil⟩
    | @cons next r' rows rs hnext hmore =>
      obtain ⟨rows', hrows', hall⟩ := ih
      have hne : (next :: rows).flatten ≠ [] := by
        obtain ⟨numbers, -, rfl⟩ := hnext
        simp [rowOf]
      exact ⟨row :: rows', by rw [List.flatten_cons, trimLast_append hne, hrows', List.flatten_cons],
        .cons hrow hall⟩

/-- A count and rows with bars between them are read as the records, if no part holds a bar. -/
theorem parseSimple_rows (hrs : ∀ r ∈ rs, r.Normal) {count : Text} (hcount : quantityText count = .ok (rs.length : Int))
    (hrows : List.Forall₂ (RowOf ReadAs) rows rs) (hbarless : ∀ t ∈ count :: rows.flatten, Barless t) :
    parseSimple (Text.intercalate "|" (count :: rows.flatten)) = .ok rs := by
  obtain ⟨rows', hrows', hall⟩ := exists_trimLast hrows
  -- What is trimmed off the whole stands around the count and around the last number.
  have hparts : ∃ first, trim first = trim count ∧
      fieldsIn (Text.intercalate "|" (count :: rows.flatten)) = first :: rows'.flatten := by
    rw [fieldsIn_intercalate (List.cons_ne_nil _ _) hbarless, trimEnds, List.modifyHead_cons, ← hrows']
    rcases rows.flatten with _ | ⟨t, more⟩
    · exact ⟨trimEnd (trimStart count), by rw [trim_trimEnd, trim_trimStart], rfl⟩
    · exact ⟨trimStart count, trim_trimStart count, rfl⟩
  obtain ⟨first, hfirst, hfields⟩ := hparts
  have hdeclared : countOf first = .ok (rs.length : Int) := by
    rw [countOf, quantityText_of_trim hfirst hcount]
  have hread : List.Forall₂ (Row extendedFields true) rows' rs :=
    forall₂_imp_of_mem hall fun r hr fields hrow => hrow.row (hrs r hr)
  rw [parseSimple_of_fieldsIn hfields hdeclared, readFields_extended hread]

theorem parseSimple_spelled (hrs : ∀ r ∈ rs, r.Normal) {count : Text} (hcount : Spelling rs.length count)
    (hrows : List.Forall₂ (RowOf SpelledAs) rows rs) :
    parseSimple (Text.intercalate "|" (count :: rows.flatten)) = .ok rs := by
  refine parseSimple_rows hrs (quantityText_spelling hcount) (hrows.imp fun fields r h => ?_)
    (List.forall_mem_cons.mpr ⟨hcount.barless, fun t ht => ?_⟩)
  · obtain ⟨numbers, hnumbers, rfl⟩ := h
    exact ⟨numbers, hnumbers.imp fun _ _ => SpelledAs.readAs, rfl⟩
  · obtain ⟨fields, hfields, ht⟩ := List.mem_flatten.mp ht
    obtain ⟨r, hr, hrow⟩ := exists_of_forall₂ hrows hfields
    exact hrow.barless (hrs r hr) t ht

/-! ## The long form -/

/-- What can be given for a number: a text that spells it, or itself; for zero also null, or nothing. -/
inductive GivenAs : Option Json → Quantity → Prop
  | text {n : Nat} {t : Text} (h : Spelling n t) : GivenAs (some (.str t)) (.int n)
  | number (n : Nat) : GivenAs (some (.int n)) (.int n)
  | null : GivenAs (some .null) (.int 0)
  | absent : GivenAs none (.int 0)

/-- The values for the names of a record's members, with the given ones in the place of its numbers. -/
def valuesOf (r : Record) (numbers : List (Option Json)) : List (Option Json) :=
  [some (.str r.hash), some (.str r.sender), some (.str (if r.isCreation then "" else r.recipient)),
    numbers.headD none, some (.str (Field.hexOfBytes r.data))] ++ numbers.tail

/-- The value is an object whose members give the record, in whatever order, with or without others. -/
def Describes (v : Json) (r : Record) : Prop := ∃ members numbers, v = .obj members ∧
  List.Forall₂ GivenAs numbers r.quantities ∧ memberNames.map (fun n => members.lookup n) = valuesOf r numbers

/-- The value is the object with these members alone, in the order of the names. -/
def ObjectOf (v : Json) (r : Record) : Prop := ∃ numbers,
  List.Forall₂ GivenAs numbers r.quantities ∧ v = .obj (given memberNames (valuesOf r numbers))

theorem fieldOf_int (n : Nat) (h : HasNumeral n) : ReadAs (fieldOf (some (.int n))) (.int n) := by
  cases n with
  | zero => exact ⟨0, rfl, rfl⟩
  | succ n =>
    have hgiven : (Json.int (n + 1 : Nat)).isGiven = true := by
      simp only [Json.isGiven, bne_iff_ne]
      omega
    refine ⟨_, ?_, rfl⟩
    rw [fieldOf, fieldText, Option.getD_some, if_pos hgiven]
    exact quantityText_decimal h

theorem GivenAs.readAs {v? : Option Json} {q : Quantity} (h : GivenAs v? q) (hq : HasNumeral q.toInt) :
    ReadAs (fieldOf v?) q := by
  cases h with
  | text h => exact ⟨_, (congrArg quantityText (fieldText_str _)).trans (quantityText_spelling h), rfl⟩
  | number n => exact fieldOf_int n hq
  | null => exact ⟨0, rfl, rfl⟩
  | absent => exact ⟨0, rfl, rfl⟩

theorem map_valuesOf (r : Record) (numbers : List (Option Json)) :
    (valuesOf r numbers).map fieldOf = rowOf r (numbers.map fieldOf) := by
  have hstr : ∀ t, fieldOf (some (.str t)) = t := fieldText_str
  have hhead : fieldOf (numbers.headD none) = (numbers.map fieldOf).headD "" := by cases numbers <;> rfl
  simp only [valuesOf, rowOf, List.map_append, List.map_cons, List.map_nil, hstr, hhead, List.map_tail]

theorem Describes.recordOfObject {v : Json} (h : Describes v r) (hr : r.Canonical) : recordOfObject v = .ok r := by
  obtain ⟨members, numbers, rfl, hnumbers, hlookup⟩ := h
  rw [recordOfObject_obj hlookup, map_valuesOf]
  refine recordOf_rowOf hr.toNormal ?_
  rw [List.forall₂_map_left_iff]
  exact forall₂_imp_of_mem hnumbers fun q hq v? hv => hv.readAs (hr.numerals q hq)

theorem parseJson_described (hrs : ∀ r ∈ rs, r.Canonical) {payload : Text} {items : List Json}
    (hpayload : Json.parse? payload = some (.arr items)) (hitems : List.Forall₂ Describes items rs) :
    parseJson payload = .ok rs := by
  rw [parseJson, hpayload]
  exact recordsOfObjects_eq_ok_iff.mpr (forall₂_imp_of_mem hitems fun r hr v hv => hv.recordOfObject (hrs r hr))

theorem ObjectOf.describes {v : Json} (h : ObjectOf v r) : Describes v r := by
  obtain ⟨numbers, hnumbers, rfl⟩ := h
  refine ⟨_, numbers, rfl, hnumbers, lookup_given ?_ (by decide)⟩
  have hlength := hnumbers.length_eq
  simp only [Record.quantities, List.length_cons, List.length_nil] at hlength
  simp [valuesOf, memberNames, hlength]

theorem mem_valuesOf (hr : r.Normal) {numbers : List (Option Json)} {v : Json} (h : some v ∈ valuesOf r numbers) :
    (∃ t : Text, v = .str t ∧ Clean t) ∨ some v ∈ numbers := by
  have hgiven : Clean (if r.isCreation then "" else r.recipient) := by
    split
    · exact ⟨[], rfl, by simp, by simp⟩
    · exact clean_address hr.recipient
  obtain ⟨n, hn, -⟩ := hr.number
  simp only [valuesOf, List.mem_append, List.mem_cons, List.not_mem_nil, or_false, Option.some.injEq] at h
  rcases h with (rfl | rfl | rfl | h | rfl) | h
  · exact .inl ⟨_, rfl, clean_hash hn⟩
  · exact .inl ⟨_, rfl, clean_address hr.sender⟩
  · exact .inl ⟨_, rfl, hgiven⟩
  · cases numbers with
    | nil => cases h
    | cons number _ => exact .inr (h ▸ List.mem_cons_self)
  · exact .inl ⟨_, rfl, clean_hexOfBytes _⟩
  · exact .inr (List.mem_of_mem_tail h)

theorem GivenAs.spells {v : Json} {q : Quantity} (h : GivenAs (some v) q) (hq : HasNumeral q.toInt) :
    Json.Spells (Json.write Json.ascii v).toList v := by
  cases h with
  | text h =>
    obtain ⟨before, cs, after, -, -, rfl⟩ := h
    exact Json.spells_str _
  | number n => exact Json.spells_int hq
  | null => exact Json.spells_null

theorem ObjectOf.spells {v : Json} (h : ObjectOf v r) (hr : r.Canonical) :
    Json.Spells (Json.write Json.ascii v).toList v := by
  obtain ⟨numbers, hnumbers, rfl⟩ := h
  refine spells_given fun v hv => ?_
  rcases mem_valuesOf hr.toNormal hv with ⟨t, rfl, cs, rfl, -⟩ | hv
  · exact Json.spells_str cs
  · obtain ⟨q, hq, hgiven⟩ := exists_of_forall₂ hnumbers hv
    exact hgiven.spells (hr.numerals q hq)

theorem parse?_objects (hrs : ∀ r ∈ rs, r.Canonical) {items : List Json} (hitems : List.Forall₂ ObjectOf items rs) :
    Json.parse? (Json.write Json.ascii (.arr items)) = some (.arr items) := by
  refine Json.parse?_write (Json.spells_arr fun v hv => ?_)
  obtain ⟨r, hr, hobject⟩ := exists_of_forall₂ hitems hv
  exact hobject.spells (hrs r hr)

/-- **The spelling of numbers does not matter.** Canonical records are read from a payload in the short
form whatever each of their numbers, and the number of records, is spelled like; and from one in the long
form whatever is given for each of their numbers, where it may be any text that spells an array of such
objects, and where what is written of such objects is one. -/
theorem spellings_read_alike (h : ∀ r ∈ rs, r.Canonical) :
    (∀ count rows, Spelling rs.length count → List.Forall₂ (RowOf SpelledAs) rows rs →
      parseSimple (Text.intercalate "|" (count :: rows.flatten)) = .ok rs) ∧
    (∀ payload items, Json.parse? payload = some (.arr items) → List.Forall₂ Describes items rs →
      parseJson payload = .ok rs) ∧
    ∀ items, List.Forall₂ ObjectOf items rs → parseJson (Json.write Json.ascii (.arr items)) = .ok rs := by
  refine ⟨fun count rows => parseSimple_spelled fun r hr => (h r hr).toNormal,
    fun payload items => parseJson_described h, fun items hitems => ?_⟩
  exact parseJson_described h (parse?_objects h hitems) (hitems.imp fun _ _ => ObjectOf.describes)

/-- A contract creation without a value and without limits. -/
def oddCreation : Record := {
  hash := "0x0a", sender := Address.zero, recipient := Address.zero, value := .int 0, data := []
  block := .int 31, index := .int 1, gasPrice := .int 255 }

/-- Its numbers, hardly two of them in the same spelling. -/
def oddNumbers : List Text := [" ", "0x1F", "001", " 0XfF\t", "0", "", "0X0"]

theorem spelling_one : Spelling 1 "001" := (Numeral.decimal 2 1 (by decide)).spelling

theorem spelling_price : Spelling 255 " 0XfF\t" :=
  ⟨[' '], _, ['\t'], .hexadecimal 0 255 (.inr rfl) ['f', 'F'] (by decide), List.all_eq_true.mp (by decide), rfl⟩

theorem spelled_oddNumbers : List.Forall₂ SpelledAs oddNumbers oddCreation.quantities := by
  have hblank : Spelling 0 " " := ⟨[' '], [], [], .empty, List.all_eq_true.mp (by decide), rfl⟩
  have hblock : Spelling 31 "0x1F" := (Numeral.hexadecimal 0 31 (.inl rfl) ['1', 'F'] (by decide)).spelling
  have hlimit : Spelling 0 "0" := (Numeral.decimal 0 0 (by decide)).spelling
  have htip : Spelling 0 "0X0" := (Numeral.hexadecimal 0 0 (.inr rfl) ['0'] (by decide)).spelling
  simp only [oddNumbers, Record.quantities, oddCreation, List.forall₂_cons, List.forall₂_nil_right_iff, and_true]
  exact ⟨⟨0, rfl, hblank⟩, ⟨31, rfl, hblock⟩, ⟨1, rfl, spelling_one⟩,
    ⟨255, rfl, spelling_price⟩, ⟨0, rfl, hlimit⟩, ⟨0, rfl, Numeral.empty.spelling⟩, ⟨0, rfl, htip⟩⟩

/-- Members that give it, in an order of their own. -/
def oddMembers : List Json.Member := [
  ⟨"gas_price".toList, .str " 0XfF\t"⟩, ⟨"block_number".toList, .int 31⟩, ⟨"value".toList, .null⟩,
  ⟨"gas_limit".toList, .int 0⟩, ⟨"transaction_index".toList, .str "001"⟩, ⟨"max_fee_per_gas".toList, .str ""⟩,
  ⟨"hash".toList, .str "0x0a"⟩, ⟨"data".toList, .str "0x"⟩, ⟨"to".toList, .str ""⟩,
  ⟨"from".toList, .str Address.zero⟩]

theorem describes_oddMembers : Describes (.obj (oddMembers.map Json.Member.entry)) oddCreation := by
  refine ⟨_, [some .null, some (.int 31), some (.str "001"), some (.str " 0XfF\t"), some (.int 0), some (.str ""),
    none], rfl, ?_, ?_⟩
  · simp only [Record.quantities, oddCreation, List.forall₂_cons, List.forall₂_nil_right_iff, and_true]
    exact ⟨.null, .number 31, .text spelling_one, .text spelling_price, .number 0, .text Numeral.empty.spelling, .absent⟩
  · rfl

theorem parse?_oddMembers : Json.parse? (Json.write Json.ascii (.arr [.obj (oddMembers.map Json.Member.entry)])) =
    some (.arr [.obj (oddMembers.map Json.Member.entry)]) := by
  have hint : ∀ n : Nat, n < 100 → Json.Spells (Json.write Json.ascii (.int n)).toList (.int n) := fun n hn =>
    Json.spells_int (hasNumeral_of_lt (by decide : 2 ≤ decimalDigitLimit) (by simpa using hn))
  refine Json.parse?_write (Json.spells_arr ?_)
  rw [List.forall_mem_singleton]
  refine Json.spells_obj ?_ (by decide)
  simp only [oddMembers, List.forall_mem_cons, List.not_mem_nil, false_imp_iff, implies_true, and_true]
  exact ⟨Json.spells_str _, hint 31 (by decide), Json.spells_null, hint 0 (by decide), Json.spells_str _,
    Json.spells_str _, Json.spells_str _, Json.spells_str _, Json.spells_str _, Json.spells_str _⟩

/-- It is read from a payload of each form. -/
theorem spellings_read_alike_odd : (∀ r ∈ [oddCreation], r.Canonical) ∧
    parseSimple (Text.intercalate "|" ("0x1" :: rowOf oddCreation oddNumbers)) = .ok [oddCreation] ∧
    parseJson (Json.write Json.ascii (.arr [.obj (oddMembers.map Json.Member.entry)])) = .ok [oddCreation] := by
  have hcanonical : ∀ r ∈ [oddCreation], r.Canonical := by
    rw [List.forall_mem_singleton]
    exact .of_computed (by decide) (by decide) Address.isChecksummed_zero Address.isChecksummed_zero
      (by decide : 3 ≤ decimalDigitLimit) (by decide)
  have hcount : Spelling 1 "0x1" := (Numeral.hexadecimal 0 1 (.inl rfl) ['1'] (by decide)).spelling
  obtain ⟨hshort, hlong, -⟩ := spellings_read_alike hcanonical
  refine ⟨hcanonical, ?_, hlong _ _ parse?_oddMembers (.cons describes_oddMembers .nil)⟩
  have hread := hshort "0x1" [rowOf oddCreation oddNumbers] hcount (.cons ⟨oddNumbers, spelled_oddNumbers, rfl⟩ .nil)
  rwa [List.flatten_singleton] at hread

end Payload
end AssertionReplay
