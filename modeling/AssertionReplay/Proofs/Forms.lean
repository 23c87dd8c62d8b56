/-
Both forms of a payload are read back.

The fields of canonical records hold no bar, so the bars of a payload are the
ones that were put between them, and a count that has a numeral tells how many
records there are (`parseSimple_short`). As members of objects the fields are
texts under distinct names (`parseJson_long`). All that is written around the
fields is digits, marks and lower case letters, so that a capital in a payload
is one of a field (`capital_of_write`).
-/
import AssertionReplay.Proofs.Framing
import AssertionReplay.Proofs.JsonText
import AssertionReplay.Proofs.Rows

namespace AssertionReplay.Payload

open Text

variable {rs : List Record} {fss : List (List Text)}

theorem allFields_canonical (h : ∀ r ∈ rs, r.Canonical) :
    ∃ fss, allFields rs = .ok fss ∧ List.Forall₂ Spelled fss rs := by
  induction rs with
  | nil => exact ⟨[], rfl, .nil⟩
  | cons r rs ih =>
    obtain ⟨fields, hfields, hspelled⟩ := fieldsOf_canonical (h r (by simp))
    obtain ⟨fss, hfss, hall⟩ := ih fun r' hr' => h r' (by simp [hr'])
    exact ⟨fields :: fss, by rw [allFields, hfields, hfss]; rfl, .cons hspelled hall⟩

theorem clean_flatten (h : List.Forall₂ Spelled fss rs) : ∀ t ∈ fss.flatten, Clean t := by
  induction h with
  | nil => simp
  | cons hf _ ih =>
    intro t ht
    rw [List.flatten_cons, List.mem_append] at ht
    exact ht.elim (hf.clean t) (ih t)

/-- What holds of the last field of each record, and of what stands before the records, holds of the last
field of a payload, with or without records. -/
theorem getLast?_flatten {P : Text → Prop} {fss : List (List Text)}
    (h : ∀ fields ∈ fss, ∃ t, fields.getLast? = some t ∧ P t) (first : List Text)
    (hfirst : ∃ t, first.getLast? = some t ∧ P t) : ∃ t, (first ++ fss.flatten).getLast? = some t ∧ P t := by
  induction fss generalizing first with
  | nil => simpa using hfirst
  | cons fields fss ih =>
    rw [List.forall_mem_cons] at h
    obtain ⟨⟨t, ht, hP⟩, hfss⟩ := h
    rw [List.flatten_cons, ← List.append_assoc]
    exact ih hfss _ ⟨t, by rw [List.getLast?_append, ht]; rfl, hP⟩

/-! ## The short form -/

theorem Spelled.row {fields : List Text} {r : Record} (h : Spelled fields r) : Row extendedFields true fields r :=
  ⟨h.length, h.read⟩

/-- The fields of a payload: the number of records, and the fields of each. -/
def shortFields (rs : List Record) (fss : List (List Text)) : List Text := decimal rs.length :: fss.flatten

theorem clean_shortFields (h : List.Forall₂ Spelled fss rs) : ∀ t ∈ shortFields rs fss, Clean t := by
  simp only [shortFields, List.forall_mem_cons]
  exact ⟨clean_decimal _, clean_flatten h⟩

theorem letters_short (rs : List Record) (fss : List (List Text)) :
    (Text.intercalate "|" (shortFields rs fss)).letters =
      [.char '|'].intercalate ((shortFields rs fss).map letters) := letters_intercalate "|" _

/-- What stands at the head of a payload is a digit. -/
theorem head?_short (rs : List Record) (fss : List (List Text)) :
    ∃ d < 10, (Text.intercalate "|" (shortFields rs fss)).letters.head? = some (.char (Nat.digitChar d)) := by
  obtain ⟨c, cs, hcs⟩ := List.exists_cons_of_ne_nil (digitChars_ne_nil rs.length)
  obtain ⟨d, hd, rfl⟩ := mem_digitChars (n := rs.length) (c := c) (by simp [hcs])
  refine ⟨d, hd, ?_⟩
  rw [letters_short, shortFields, List.map_cons, intercalate_cons, ofString_decimal, letters_ofChars, hcs]
  rfl

/-- Nothing is trimmed from the end of a payload if nothing is from the last field of each record. -/
theorem unpadded_short (rs : List Record) {fss : List (List Text)}
    (h : ∀ fields ∈ fss, ∃ t, fields.getLast? = some t ∧ Unpadded t) :
    Unpadded (Text.intercalate "|" (shortFields rs fss)) := by
  obtain ⟨t, ht, l, hl, hblank⟩ := getLast?_flatten h [(decimal rs.length : Text)] ⟨_, rfl, unpadded_decimal rs.length⟩
  have hlast : ((shortFields rs fss).map letters).getLast? = some t.letters := by
    rw [List.getLast?_map]
    exact congrArg (Option.map letters) ht
  refine ⟨l, ?_, hblank⟩
  rw [letters_short, getLast?_intercalate hlast (by rintro hnil; simp [hnil] at hl), hl]

theorem unpadded_spelled (h : List.Forall₂ Spelled fss rs) :
    ∀ fields ∈ fss, ∃ t, fields.getLast? = some t ∧ Unpadded t := by
  intro fields hfields
  obtain ⟨r, -, hspelled⟩ := exists_of_forall₂ h hfields
  obtain ⟨n, hn⟩ := hspelled.last
  exact ⟨_, hn, unpadded_decimal n⟩

/-- The parts of a payload are read as they were put together. -/
theorem fieldsIn_short (h : List.Forall₂ Spelled fss rs) :
    fieldsIn (Text.intercalate "|" (shortFields rs fss)) = shortFields rs fss := by
  have hfirst : trimStart (decimal rs.length) = decimal rs.length := (ends_of_trim (trim_decimal _)).1
  obtain ⟨t, ht, hunpadded⟩ := getLast?_flatten (unpadded_spelled h) [(decimal rs.length : Text)]
    ⟨_, rfl, unpadded_decimal rs.length⟩
  have hlast : trimEnd t = t := congrArg Text.mk hunpadded.rdropWhile
  have hne : shortFields rs fss ≠ [] := List.cons_ne_nil _ _
  rw [fieldsIn_intercalate hne fun t ht => (clean_shortFields h t ht).barless]
  refine trimEnds_eq_self (fun t ht => ?_) fun t' ht' => ?_
  · cases ht
    exact hfirst
  · cases (show (shortFields rs fss).getLast? = some t from ht).symm.trans ht'
    exact hlast

/-- **The short form is read back**, if the number of records has a numeral. -/
theorem parseSimple_short (h : List.Forall₂ Spelled fss rs) :
    parseSimple (Text.intercalate "|" (shortFields rs fss)) = .ok rs ↔ HasNumeral rs.length := by
  have hfields := fieldsIn_short h
  by_cases hn : HasNumeral rs.length
  · have hread := readFields_extended (h.imp fun _ _ hspelled => hspelled.row)
    simp only [hn, iff_true]
    exact (parseSimple_of_fieldsIn hfields (countOf_decimal hn)).trans hread
  · simp [hn, parseSimple_of_badCount hfields (countOf_decimal_error hn)]

/-! ## The long form -/

/-- The members of an object: under each name the value that is given for it, if there is one. -/
def given (names : List Text) (vs : List (Option Json)) : List (Text × Json) :=
  (names.zip vs).filterMap fun p => p.2.map (p.1, ·)

theorem given_cons (name : Text) (names : List Text) (v? : Option Json) (vs : List (Option Json)) :
    given (name :: names) (v? :: vs) = (v?.map (name, ·)).toList ++ given names vs := by
  cases v? <;> rfl

theorem lookup_given_none {names : List Text} {name : Text} (h : name ∉ names) (vs : List (Option Json)) :
    (given names vs).lookup name = none := by
  rw [List.lookup_eq_none_iff]
  intro member hmember
  obtain ⟨⟨n, v?⟩, hp, hsome⟩ := List.mem_filterMap.mp hmember
  obtain ⟨v, -, rfl⟩ := Option.map_eq_some_iff.mp hsome
  rw [bne_iff_ne]
  rintro rfl
  exact h (List.of_mem_zip hp).1

theorem lookup_given {names : List Text} {vs : List (Option Json)} (hlength : names.length = vs.length)
    (hnames : names.Nodup) : names.map (fun n => (given names vs).lookup n) = vs := by
  induction names generalizing vs with
  | nil => cases vs with
    | nil => rfl
    | cons => cases hlength
  | cons name names ih => cases vs with
    | nil => cases hlength
    | cons v? vs =>
      obtain ⟨hname, hnames⟩ := List.nodup_cons.mp hnames
      have hother : ∀ n ∈ names, (given (name :: names) (v? :: vs)).lookup n = (given names vs).lookup n := by
        intro n hn
        have hne : (n == name) = false := by
          rw [beq_eq_false_iff_ne]
          rintro rfl
          exact hname hn
        rw [given_cons]
        cases v? <;> simp [List.lookup_cons, hne]
      have hfirst : (given (name :: names) (v? :: vs)).lookup name = v? := by
        rw [given_cons]
        cases v? <;> simp [lookup_given_none hname]
      rw [List.map_cons, List.map_congr_left hother, ih (by simpa using hlength) hnames, hfirst]

/-- The text of the field that a member is read as. -/
def fieldOf (v? : Option Json) : Text := fieldText (v?.getD .null)

theorem recordOfObject_obj {members : List (Text × Json)} {vs : List (Option Json)}
    (h : memberNames.map (fun n => members.lookup n) = vs) :
    recordOfObject (.obj members) = recordOf (vs.map fieldOf) true := by
  rw [← h, List.map_map]
  rfl

theorem recordsOfObjects_eq_ok_iff {items : List Json} :
    recordsOfObjects items = .ok rs ↔ List.Forall₂ (fun v r => recordOfObject v = .ok r) items rs := by
  constructor
  · intro h
    induction items generalizing rs with
    | nil =>
      cases h
      exact .nil
    | cons v items ih =>
      obtain ⟨r, hr, h⟩ := bind_eq_ok_iff.mp h
      obtain ⟨rest, hrest, h⟩ := bind_eq_ok_iff.mp h
      cases h
      exact .cons hr (ih hrest)
  · intro h
    induction h with
    | nil => rfl
    | cons hr _ ih =>
      rw [recordsOfObjects, hr, ih]
      rfl

theorem fieldText_str (t : Text) : fieldText (.str t) = t := by
  unfold fieldText
  split
  · rfl
  · rename_i h
    exact (isEmpty_iff.mp (by simpa [Json.isGiven] using h)).symm

/-- A record's fields as the members of an object. -/
def objectOf (fields : List Text) : Json := .obj (memberNames.zip (fields.map .str))

theorem objectOf_eq (fields : List Text) :
    objectOf fields = .obj (given memberNames (fields.map fun t => some (.str t))) := by
  rw [objectOf, given, List.zip_map_right, List.zip_map_right, List.filterMap_map]
  exact congrArg Json.obj (congrFun List.filterMap_eq_map _).symm

theorem recordOfObject_objectOf {fields : List Text} {r : Record} (h : Spelled fields r) :
    recordOfObject (objectOf fields) = .ok r := by
  have hlength : memberNames.length = (fields.map fun t => some (Json.str t)).length := by
    rw [List.length_map, h.length]
    rfl
  rw [objectOf_eq, recordOfObject_obj (lookup_given hlength (by decide)), List.map_map]
  have hfields : fields.map (fieldOf ∘ fun t => some (.str t)) = fields :=
    (List.map_congr_left fun t _ => fieldText_str t).trans (List.map_id fields)
  rw [hfields]
  exact h.read

theorem exists_memberNames : ∃ names : List (List Char), memberNames = names.map ofChars :=
  ⟨memberNames.map fun n => n.chars?.getD [], by decide⟩

theorem exists_members (vs : List (Option Json)) : ∃ ms : List Json.Member,
    given memberNames vs = ms.map Json.Member.entry ∧ (ms.map (·.entry.1)).Sublist memberNames ∧
      ∀ m ∈ ms, some m.value ∈ vs := by
  obtain ⟨names, hnames⟩ := exists_memberNames
  rw [hnames]
  clear hnames
  induction names generalizing vs with
  | nil => exact ⟨[], rfl, List.Sublist.slnil, by simp⟩
  | cons name names ih => cases vs with
    | nil => exact ⟨[], rfl, List.nil_sublist _, by simp⟩
    | cons v? vs =>
      obtain ⟨ms, hms, hsublist, hvalues⟩ := ih vs
      rw [List.map_cons, given_cons, hms]
      cases v? with
      | none => exact ⟨ms, rfl, hsublist.cons _, fun m hm => List.mem_cons_of_mem _ (hvalues m hm)⟩
      | some v =>
        refine ⟨⟨name, v⟩ :: ms, rfl, hsublist.cons_cons _, ?_⟩
        rw [List.forall_mem_cons]
        exact ⟨List.mem_cons_self, fun m hm => List.mem_cons_of_mem _ (hvalues m hm)⟩

theorem spells_given {vs : List (Option Json)} (h : ∀ v, some v ∈ vs → Json.Spells (Json.write Json.ascii v).toList v) :
    Json.Spells (Json.write Json.ascii (.obj (given memberNames vs))).toList (.obj (given memberNames vs)) := by
  obtain ⟨ms, hms, hnames, hvalues⟩ := exists_members vs
  rw [hms]
  exact Json.spells_obj (fun m hm => h m.value (hvalues m hm)) (hnames.nodup (by decide))

theorem spells_objectOf {fields : List Text} {r : Record} (h : Spelled fields r) :
    Json.Spells (Json.write Json.ascii (objectOf fields)).toList (objectOf fields) := by
  rw [objectOf_eq]
  refine spells_given fun v hv => ?_
  obtain ⟨t, ht, heq⟩ := List.mem_map.mp hv
  cases heq
  obtain ⟨cs, rfl, -⟩ := h.clean t ht
  exact Json.spells_str cs

/-- **The long form is read back.** -/
theorem parseJson_long (h : List.Forall₂ Spelled fss rs) :
    parseJson (Json.write Json.ascii (.arr (fss.map objectOf))) = .ok rs := by
  have hspells : ∀ v ∈ fss.map objectOf, Json.Spells (Json.write Json.ascii v).toList v := by
    refine List.forall_mem_map.mpr fun fields hfields => ?_
    obtain ⟨r, -, hspelled⟩ := exists_of_forall₂ h hfields
    exact spells_objectOf hspelled
  rw [parseJson, Json.parse?_write (Json.spells_arr hspells)]
  refine recordsOfObjects_eq_ok_iff.mpr ?_
  rw [List.forall₂_map_left_iff]
  exact h.imp fun _ _ => recordOfObject_objectOf

/-! ## Capitals -/

theorem ne_of_isUpper {x c : Char} (hx : x.isUpper = true) (hc : c.isUpper = false) : x ≠ c := by
  rintro rfl
  exact absurd hx (by simp [hc])

theorem not_mem_hexPadded {x : Char} (hx : x.isUpper = true) (width n : Nat) : x ∉ hexPadded width n := by
  induction width generalizing n with
  | zero => simp [hexPadded]
  | succ width ih =>
    have hdigit := (by decide : ∀ d < 16, (hexDigit d).isUpper = false) (n % 16) (Nat.mod_lt _ (by decide))
    simpa [hexPadded, ih] using ne_of_isUpper hx hdigit

/-- Escaping brings in lower case letters only. -/
theorem mem_stringLetter {x : Char} (hx : x.isUpper = true) {l : Letter} (h : x ∈ Json.stringLetter Json.ascii l) :
    l = .char x := by
  have hne : ∀ {c : Char}, c.isUpper = false → x ≠ c := ne_of_isUpper hx
  have hunit : ∀ n, x ∉ Json.unicodeEscape n := fun n => by
    simp [Json.unicodeEscape, not_mem_hexPadded hx, hne (c := '\\') rfl, hne (c := 'u') rfl]
  cases l with
  | half offset => exact absurd h (hunit _)
  | char c =>
    rw [Json.stringLetter] at h
    rcases Json.stringChar_cases c with ⟨e, he, hc, -⟩ | hc | ⟨-, -, -, hc⟩ <;> rw [hc] at h
    · have hlower : e.isUpper = false := by
        simp only [List.mem_cons, List.not_mem_nil, or_false] at he
        rcases he with rfl | rfl | rfl | rfl | rfl | rfl | rfl <;> rfl
      simp [hne (c := '\\') rfl, hne hlower] at h
    · unfold Json.escapeUnits at h
      dsimp only at h
      split at h
      · exact absurd h (hunit _)
      · exact absurd (List.mem_append.mp h) (not_or.mpr ⟨hunit _, hunit _⟩)
    · rw [List.mem_singleton.mp h]

theorem mem_stringText {x : Char} (hx : x.isUpper = true) {t : Text}
    (h : x ∈ (Json.stringText Json.ascii t).toList) : Letter.char x ∈ t.letters := by
  simp only [Json.stringText, String.toList_ofList, List.mem_cons, List.mem_append, List.mem_flatMap,
    ne_of_isUpper hx (c := '"') rfl, List.not_mem_nil, false_or, or_false] at h
  obtain ⟨l, hl, hmem⟩ := h
  rwa [← mem_stringLetter hx hmem]

/-- Between two marks stand lists with commas between them. -/
theorem mem_enclosed {x first last : Char} (hx : x.isUpper = true) (hfirst : first.isUpper = false)
    (hlast : last.isUpper = false) {lists : List (List Char)}
    (h : x ∈ first :: ([','].intercalate lists ++ [last])) : ∃ cs ∈ lists, x ∈ cs := by
  simp only [List.mem_cons, List.mem_append, ne_of_isUpper hx hfirst, ne_of_isUpper hx hlast, List.not_mem_nil,
    false_or, or_false] at h
  exact (mem_intercalate h).resolve_left (ne_of_isUpper hx rfl)

theorem mem_objectOf {x : Char} (hx : x.isUpper = true) {fields : List Text}
    (h : x ∈ (Json.write Json.ascii (objectOf fields)).toList) : ∃ t ∈ fields, Letter.char x ∈ t.letters := by
  obtain ⟨ms, hms, hnames, hvalues⟩ := exists_members (fields.map fun t => some (.str t))
  rw [objectOf_eq, hms, Json.toList_obj] at h
  obtain ⟨chars, hchars, hmem⟩ := mem_enclosed hx rfl rfl h
  obtain ⟨m, hm, rfl⟩ := List.mem_map.mp hchars
  obtain ⟨t, ht, hvalue⟩ := List.mem_map.mp (hvalues m hm)
  rw [Json.Member.chars, ← Option.some.inj hvalue, List.mem_append, List.mem_cons] at hmem
  rcases hmem with hmem | hmem | hmem
  · have hname : m.entry.1 ∈ memberNames := hnames.subset (List.mem_map_of_mem hm)
    have hlower : (Letter.char x).satisfies Char.isUpper = false :=
      (by decide : ∀ name ∈ memberNames, ∀ l ∈ name.letters, l.satisfies Char.isUpper = false) _ hname _
        (mem_stringText hx hmem)
    exact absurd hx (by simpa [Letter.satisfies] using hlower)
  · exact absurd hmem (ne_of_isUpper hx rfl)
  · exact ⟨t, ht, mem_stringText hx hmem⟩

/-! ## Either form -/

theorem forall₂_allFields (h : allFields rs = .ok fss) :
    List.Forall₂ (fun r fields => fieldsOf r = .ok fields) rs fss := by
  induction rs generalizing fss with
  | nil =>
    cases h
    exact .nil
  | cons r rs ih =>
    obtain ⟨fields, hfields, h⟩ := bind_eq_ok_iff.mp h
    obtain ⟨others, hothers, h⟩ := bind_eq_ok_iff.mp h
    cases h
    exact .cons hfields (ih hothers)

theorem exists_of_write {format : Format} {payload : Text} (h : write format rs = .ok payload) :
    ∃ fss, allFields rs = .ok fss := by
  cases format <;> obtain ⟨fss, hfss, -⟩ := bind_eq_ok_iff.mp h <;> exact ⟨fss, hfss⟩

theorem write_simple (h : allFields rs = .ok fss) :
    write .simple rs = .ok (Text.intercalate "|" (shortFields rs fss)) := by
  rw [write, writeSimple, h]
  rfl

theorem write_json (h : allFields rs = .ok fss) :
    write .json rs = .ok (Json.write Json.ascii (.arr (fss.map objectOf))) := by
  rw [write, writeJson, h]
  rfl

/-- **Capitals come from the fields.** What is written around them has none. -/
theorem capital_of_write {format : Format} {payload : Text} (h : write format rs = .ok payload) {x : Char}
    (hx : x.isUpper = true) (hmem : Letter.char x ∈ payload.letters) :
    ∃ r ∈ rs, ∃ fields, fieldsOf r = .ok fields ∧ ∃ t ∈ fields, Letter.char x ∈ t.letters := by
  obtain ⟨fss, hfss⟩ := exists_of_write h
  have hrecord : ∀ {fields}, fields ∈ fss → ∃ r ∈ rs, fieldsOf r = .ok fields :=
    exists_of_forall₂ (forall₂_allFields hfss).flip
  cases format with
  | simple =>
    cases (write_simple hfss).symm.trans h
    have hbar : Letter.char x ≠ .char '|' := fun heq => ne_of_isUpper hx rfl (Letter.char.inj heq)
    rw [letters_short] at hmem
    obtain ⟨part, hpart, hmem⟩ := (mem_intercalate hmem).resolve_left hbar
    obtain ⟨t, ht, rfl⟩ := List.mem_map.mp hpart
    rcases List.mem_cons.mp ht with rfl | ht
    · rw [ofString_decimal, letters_ofChars] at hmem
      obtain ⟨d, hd, rfl⟩ := mem_digitChars (by simpa using hmem)
      exact absurd hx ((by decide : ∀ d < 10, (Nat.digitChar d).isUpper ≠ true) d hd)
    · obtain ⟨fields, hfields, ht⟩ := List.mem_flatten.mp ht
      obtain ⟨r, hr, heq⟩ := hrecord hfields
      exact ⟨r, hr, fields, heq, t, ht, hmem⟩
  | json =>
    cases (write_json hfss).symm.trans h
    have hchars : x ∈ (Json.write Json.ascii (.arr (fss.map objectOf))).toList := by simpa [ofString] using hmem
    rw [Json.toList_arr] at hchars
    obtain ⟨chars, hchars, hmem⟩ := mem_enclosed hx rfl rfl hchars
    rw [List.map_map] at hchars
    obtain ⟨fields, hfields, rfl⟩ := List.mem_map.mp hchars
    obtain ⟨r, hr, heq⟩ := hrecord hfields
    exact ⟨r, hr, fields, heq, mem_objectOf hx hmem⟩

theorem unpadded_of_write {format : Format} {payload : Text} (h : write format rs = .ok payload) :
    Unpadded payload := by
  obtain ⟨fss, hfss⟩ := exists_of_write h
  cases format with
  | simple =>
    cases (write_simple hfss).symm.trans h
    refine unpadded_short rs fun fields hfields => ?_
    obtain ⟨r, -, heq⟩ := exists_of_forall₂ (forall₂_allFields hfss).flip hfields
    exact unpadded_fieldsOf heq
  | json =>
    cases (write_json hfss).symm.trans h
    refine ⟨.char ']', ?_, rfl⟩
    rw [ofString, letters_ofChars, Json.toList_arr, ← List.cons_append, List.map_append]
    exact List.getLast?_concat

end AssertionReplay.Payload
