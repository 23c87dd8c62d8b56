/-
How a payload is refused.

Whatever text is read, what is wrong with it is told as a fault of the
payload: what its count, a field of a record or an element of an array is
refused for becomes one, and nothing else can fail. The one exception is a
refusal that cannot be worded. A payload in the short form that declares more
records than it has fields for is refused with the number of fields that it
needs, and if there is no numeral for that number, it is the wording that
fails (`Overdeclared`).
-/
import AssertionReplay.Proofs.Channel

namespace AssertionReplay

open Text

/-! ## Faults of one kind -/

/-- A computation that can fail only as `P` tells. -/
def FailsAs (P : Fault → Prop) (r : Except Fault α) : Prop := ∀ e, r = .error e → P e

namespace FailsAs

variable {P : Fault → Prop}

theorem ok (a : α) : FailsAs P (.ok a : Except Fault α) := fun _ h => by cases h

theorem error {e : Fault} (h : P e) : FailsAs P (.error e : Except Fault α) := fun _ heq => by
  cases heq
  exact h

theorem bind {r : Except Fault α} {f : α → Except Fault β} (hr : FailsAs P r) (hf : ∀ a, FailsAs P (f a)) :
    FailsAs P (r >>= f) := by
  cases r with
  | error e => exact error (hr e rfl)
  | ok a => exact hf a

theorem map {r : Except Fault α} (hr : FailsAs P r) (f : α → β) : FailsAs P (r.map f) := by
  cases r with
  | error e => exact error (hr e rfl)
  | ok a => exact ok (f a)

end FailsAs

namespace Fault

/-- The fault is one of a value. -/
def OfValue (e : Fault) : Prop := ∃ cause, e = .value cause

/-- The fault is one of a payload. -/
def OfPayload (e : Fault) : Prop := ∃ cause, e = .payload cause

end Fault

namespace Field

theorem unreadable_ofValue : unreadable.OfValue := ⟨_, rfl⟩

theorem int_fails (base : Nat) (t : Text) : FailsAs Fault.OfValue (int base t) := by
  unfold int
  split
  · exact .ok _
  · exact .error unreadable_ofValue

theorem quantityText_fails (t : Text) : FailsAs Fault.OfValue (quantityText t) := by
  unfold quantityText hexText
  dsimp only
  split
  · exact .ok _
  split
  · split
    · exact .ok _
    · exact int_fails 16 _
  split
  · exact .error ⟨_, rfl⟩
  · exact int_fails 10 _

theorem bytes_str_fails (t : Text) : FailsAs Fault.OfValue (bytes (.str t)) := by
  unfold bytes bytesText
  split
  · exact .ok _
  · dsimp only
    split
    · exact .ok _
    · exact .error unreadable_ofValue

end Field

theorem Address.parseText_fails (t : Text) : FailsAs Fault.OfValue (Address.parseText t) := by
  unfold Address.parseText Address.parse Address.parseWith
  split
  · exact .ok _
  · dsimp only
    split
    · exact .ok _
    · exact .error ⟨_, rfl⟩

namespace Payload

/-! ## The fields of a record -/

theorem inRecord_fails (fields : List Text) {r : Except Fault α} (hr : FailsAs Fault.OfValue r) :
    FailsAs Fault.OfPayload (inRecord fields r) := by
  cases r with
  | ok a => exact .ok a
  | error e =>
    obtain ⟨cause, rfl⟩ := hr e rfl
    exact .error ⟨_, rfl⟩

/-- **A record that cannot be read** is a fault of the payload, whichever field it is. -/
theorem recordOf_fails (fields : List Text) (extended : Bool) :
    FailsAs Fault.OfPayload (recordOf fields extended) := by
  have hquantity : ∀ t, FailsAs Fault.OfPayload (inRecord fields ((Field.quantityText t).map Quantity.int)) :=
    fun t => inRecord_fails fields ((Field.quantityText_fails t).map _)
  have hlimit : ∀ t, FailsAs Fault.OfPayload
      (if extended then inRecord fields ((Field.quantityText t).map Quantity.int) else .ok (.int 0)) := by
    intro t
    split
    · exact hquantity t
    · exact .ok _
  have haddress : ∀ t, FailsAs Fault.OfPayload (inRecord fields (Address.parseText t)) :=
    fun t => inRecord_fails fields (Address.parseText_fails t)
  unfold recordOf
  dsimp only
  split
  · exact .error ⟨_, rfl⟩
  · refine .bind (inRecord_fails fields (Field.int_fails 16 _)) fun number => ?_
    split
    · exact .error ⟨_, rfl⟩
    · exact .bind (haddress _) fun sender => .bind (haddress _) fun recipient =>
        .bind (hquantity _) fun value => .bind (inRecord_fails fields (Field.bytes_str_fails _)) fun data =>
        .bind (hquantity _) fun block => .bind (hquantity _) fun index => .bind (hquantity _) fun gasPrice =>
        .bind (hlimit _) fun gasLimit => .bind (hlimit _) fun maxFee => .bind (hlimit _) fun maxPriorityFee => .ok _

/-! ## The records of a payload -/

theorem recordsOf_fails (width : Nat) (extended : Bool) (count : Nat) (fields : List Text) :
    FailsAs Fault.OfPayload (recordsOf width extended count fields) := by
  induction count generalizing fields with
  | zero => exact .ok _
  | succ count ih => exact .bind (recordOf_fails _ _) fun r => .bind (ih _) fun rest => .ok _

theorem recordOfObject_fails (v : Json) : FailsAs Fault.OfPayload (recordOfObject v) := by
  cases v with
  | obj members => exact recordOf_fails _ _
  | _ => exact .error ⟨_, rfl⟩

theorem recordsOfObjects_fails (vs : List Json) : FailsAs Fault.OfPayload (recordsOfObjects vs) := by
  induction vs with
  | nil => exact .ok _
  | cons v vs ih => exact .bind (recordOfObject_fails v) fun r => .bind ih fun rest => .ok _

theorem parseJson_fails (payload : Text) : FailsAs Fault.OfPayload (parseJson payload) := by
  unfold parseJson
  split
  · exact .error ⟨_, rfl⟩
  · exact recordsOfObjects_fails _
  · exact .error ⟨_, rfl⟩

theorem countOf_fails (field : Text) : FailsAs Fault.OfPayload (countOf field) := by
  unfold countOf
  rcases h : Field.quantityText field with e | n
  · obtain ⟨cause, rfl⟩ := Field.quantityText_fails field e h
    exact .error ⟨_, rfl⟩
  · exact .ok n

/-! ## A refusal that cannot be worded -/

/-- The payload declares more records than it has fields for, and there is no numeral for the number of
fields that it needs. -/
def Overdeclared (payload : Text) : Prop :=
  ∃ count, countOf ((fieldsIn payload).headD "") = .ok count ∧
    ((fieldsIn payload).drop 1).length < count * legacyFields ∧ ¬ HasNumeral (count * legacyFields)

theorem parseSimple_overdeclared {payload : Text} (h : Overdeclared payload) :
    parseSimple payload = .error Field.unreadable := by
  obtain ⟨count, hcount, hfew, hnumeral⟩ := h
  have hlegacy : ¬ count * legacyFields ≤ ((fieldsIn payload).drop 1).length := by omega
  have hextended : ¬ count * extendedFields ≤ ((fieldsIn payload).drop 1).length := by
    simp only [legacyFields, extendedFields] at hfew ⊢
    omega
  have hpos : ¬ (count == 0) = true := by
    intro h
    rw [beq_iff_eq.mp h] at hfew
    omega
  unfold parseSimple
  dsimp only
  rw [show (splitBars (trim payload).letters).map Text.mk = fieldsIn payload from rfl, hcount]
  simp only [bind, Except.bind]
  rw [if_neg hpos, if_neg hextended, if_neg hlegacy, decimal?_eq_none_iff.mpr hnumeral]
  cases decimal? count <;> rfl

/-- In the short form nothing else fails that is not a fault of the payload. -/
theorem parseSimple_fails {payload : Text} (h : ¬ Overdeclared payload) :
    FailsAs Fault.OfPayload (parseSimple payload) := by
  unfold parseSimple
  dsimp only
  rw [show (splitBars (trim payload).letters).map Text.mk = fieldsIn payload from rfl]
  rcases hcount : countOf ((fieldsIn payload).headD "") with e | count
  · exact .error (countOf_fails _ e hcount)
  simp only [bind, Except.bind]
  split
  · exact .ok _
  split
  · exact recordsOf_fails _ _ _ _
  split
  · exact recordsOf_fails _ _ _ _
  · rename_i hfew
    have hnumeral : HasNumeral (count * legacyFields) := by
      by_contra hnot
      exact h ⟨count, hcount, by omega, hnot⟩
    have hcount' : HasNumeral count := by
      unfold HasNumeral legacyFields at *
      omega
    rw [decimal?_eq_some_iff.mpr hnumeral, decimal?_eq_some_iff.mpr hcount']
    exact .error ⟨_, rfl⟩

/-! ## A payload in the long form declares nothing -/

theorem trimBy_of_dropWhile {p : α → Bool} {xs rest : List α} {x : α} (h : xs.dropWhile p = x :: rest) :
    ∃ rest', trimBy p xs = x :: rest' := by
  have hx : p x = false := head?_dropWhile p xs x (by rw [h]; rfl)
  have hmem : x ∈ trimBy p xs := by
    have hxs : x ∈ xs := (List.dropWhile_sublist p).subset (by rw [h]; exact List.mem_cons_self)
    exact (mem_trimBy_or hxs).resolve_right (by simp [hx])
  have hhead : trimBy p xs <+: x :: rest := h ▸ List.rdropWhile_prefix p (xs.dropWhile p)
  rcases htrim : trimBy p xs with _ | ⟨y, rest'⟩
  · rw [htrim] at hmem
    cases hmem
  · rw [htrim, List.cons_prefix_cons] at hhead
    exact ⟨rest', by rw [hhead.1]⟩

theorem quantityText_bracket (rest : List Letter) :
    Field.quantityText ⟨.char '[' :: rest⟩ = .error (.value (.notInteger ⟨.char '[' :: rest⟩)) := by
  have hdrop : (Letter.char '[' :: rest).dropWhile (Letter.satisfies isBlank) = .char '[' :: rest :=
    List.dropWhile_cons_of_neg (by decide)
  obtain ⟨rest', htrim⟩ := trimBy_of_dropWhile hdrop
  unfold Field.quantityText
  dsimp only
  rw [trim, htrim]
  rfl

theorem splitBars_bracket (rest : List Letter) :
    ∃ part parts, splitBars (.char '[' :: rest) = (.char '[' :: part) :: parts := by
  rw [splitBars, if_neg (by decide)]
  split
  · exact ⟨_, _, rfl⟩
  · exact ⟨_, _, rfl⟩

/-- Where an array begins there is no count. -/
theorem not_overdeclared_of_opensArray {payload : Text} (h : opensArray payload = true) :
    ¬ Overdeclared payload := by
  unfold opensArray at h
  split at h
  · rename_i rest hdrop
    obtain ⟨rest', htrim⟩ := trimBy_of_dropWhile hdrop
    obtain ⟨part, parts, hparts⟩ := splitBars_bracket rest'
    have hcount : countOf ((fieldsIn payload).headD "") = .error (.payload (.badCount ⟨.char '[' :: part⟩)) := by
      rw [fieldsIn, trim, htrim, hparts, List.map_cons, List.headD_cons, countOf, quantityText_bracket]
    intro hover
    obtain ⟨count, hdeclared, -⟩ := hover
    rw [hcount] at hdeclared
    cases hdeclared
  · cases h

theorem not_overdeclared_of_isEmpty {payload : Text} (h : payload.isEmpty = true) : ¬ Overdeclared payload := by
  rw [isEmpty_iff.mp h]
  intro hover
  obtain ⟨count, hdeclared, hfew, -⟩ := hover
  cases hdeclared
  omega

/-! ## Digits alone -/

theorem fieldsIn_decimal (n : Nat) : fieldsIn (decimal n) = [(decimal n : Text)] := by
  have hbar : ∀ t ∈ [(decimal n : Text)], Barless t := by simpa using (clean_decimal n).barless
  have hparts := fieldsIn_intercalate (List.cons_ne_nil _ _) hbar
  rw [intercalate_singleton] at hparts
  rw [hparts]
  exact congrArg ([·]) (trim_decimal n)

theorem extract_framed_decimal (n : Nat) : extract (framed (decimal n)) = decimal n := by
  have hmem : ∀ l ∈ (decimal n : Text).letters, ∃ d < 10, l = .char (Nat.digitChar d) := by
    intro l hl
    rw [ofString_decimal, letters_ofChars] at hl
    obtain ⟨c, hc, rfl⟩ := List.mem_map.mp hl
    obtain ⟨d, hd, rfl⟩ := mem_digitChars hc
    exact ⟨d, hd, rfl⟩
  have hdigit : ∀ d < 10, Letter.char (Nat.digitChar d) ≠ .char 'T' ∧
      (Letter.char (Nat.digitChar d)).satisfies isBlank = false := by decide
  have hmarker : ¬ HasMarker (decimal n) := by
    refine not_hasMarker fun hT => ?_
    obtain ⟨d, hd, heq⟩ := hmem _ hT
    exact (hdigit d hd).1 heq.symm
  have hnone : ¬ HasMarker "" := not_hasMarker (by decide)
  have hend : (decimal n : Text).letters.rdropWhile (Letter.satisfies isBlank) = (decimal n : Text).letters := by
    refine List.rdropWhile_eq_self_iff.mpr fun hne => ?_
    obtain ⟨d, hd, heq⟩ := hmem _ (List.getLast_mem hne)
    simp [heq, (hdigit d hd).2]
  have hbare : ("" ++ framed (decimal n) ++ "" : Text) = framed (decimal n) :=
    congrArg Text.mk (List.append_nil _)
  rw [← hbare]
  exact extract_framed "" hnone hmarker hend

/-! ## What a reader answers -/

/-- What is read is normal records, and what is refused is refused with a fault of the payload. -/
def Answers (r : Except Fault (List Record)) : Prop :=
  (∃ rs, r = .ok rs ∧ ∀ record ∈ rs, record.Normal) ∨ ∃ cause, r = .error (.payload cause)

theorem answers_of_fails {r : Except Fault (List Record)} (hok : ∀ rs, r = .ok rs → ∀ record ∈ rs, record.Normal)
    (hfails : FailsAs Fault.OfPayload r) : Answers r := by
  rcases r with e | rs
  · obtain ⟨cause, rfl⟩ := hfails e rfl
    exact .inr ⟨cause, rfl⟩
  · exact .inl ⟨rs, rfl, hok rs rfl⟩

theorem not_answers_unreadable : ¬ Answers (.error Field.unreadable) := by
  intro h
  rcases h with ⟨_, h, -⟩ | ⟨_, h⟩ <;> cases h

/-- The payload of an output is read in the one form or in the other. -/
theorem parseOutput_overdeclared {output : Text} (h : Overdeclared (extract output)) :
    parseOutput output = .error Field.unreadable := by
  unfold parseOutput
  dsimp only
  rw [if_neg fun hempty => not_overdeclared_of_isEmpty hempty h,
    if_neg fun hopens => not_overdeclared_of_opensArray hopens h]
  exact parseSimple_overdeclared h

theorem parseOutput_fails {output : Text} (h : ¬ Overdeclared (extract output)) :
    FailsAs Fault.OfPayload (parseOutput output) := by
  unfold parseOutput
  dsimp only
  split
  · exact .error ⟨_, rfl⟩
  split
  · exact parseJson_fails _
  · exact parseSimple_fails h

/-- **A payload is refused as one.** Whatever text is read, each reader gives normal records or refuses
the text with a fault of the payload, except where the payload declares so many more records than it has
fields for that the refusal cannot be worded; such a payload is what no reader of the short form answers. -/
theorem payloads_refused (text : Text) :
    (Answers (parseSimple text) ↔ ¬ Overdeclared text) ∧
    Answers (parseJson text) ∧
    (Answers (parseOutput text) ↔ ¬ Overdeclared (extract text)) ∧
    (Overdeclared text → parseSimple text = .error Field.unreadable) ∧
    (Overdeclared (extract text) → parseOutput text = .error Field.unreadable) := by
  have hsimple : Answers (parseSimple text) ↔ ¬ Overdeclared text := by
    refine ⟨fun h hover => ?_, fun h => answers_of_fails (fun _ => parseSimple_normal) (parseSimple_fails h)⟩
    rw [parseSimple_overdeclared hover] at h
    exact not_answers_unreadable h
  have houtput : Answers (parseOutput text) ↔ ¬ Overdeclared (extract text) := by
    refine ⟨fun h hover => ?_, fun h => answers_of_fails (fun _ => parseOutput_normal) (parseOutput_fails h)⟩
    rw [parseOutput_overdeclared hover] at h
    exact not_answers_unreadable h
  exact ⟨hsimple, answers_of_fails (fun _ => parseJson_normal) (parseJson_fails text), houtput,
    parseSimple_overdeclared, parseOutput_overdeclared⟩

/-- The greatest number with a numeral. -/
def mostRecords : Nat := 10 ^ decimalDigitLimit - 1

/-- A payload that declares as many records, and has no fields. -/
def boundless : Text := decimal mostRecords

theorem mostRecords_facts : 0 < mostRecords ∧ HasNumeral mostRecords ∧ ¬ HasNumeral (mostRecords * legacyFields) := by
  have hten : 10 ≤ 10 ^ decimalDigitLimit := Nat.le_self_pow (by decide) 10
  unfold HasNumeral mostRecords legacyFields
  generalize 10 ^ decimalDigitLimit = limit at hten ⊢
  omega

theorem countOf_boundless : countOf ((fieldsIn boundless).headD "") = .ok (mostRecords : Int) := by
  obtain ⟨-, hnumeral, -⟩ := mostRecords_facts
  rw [boundless, fieldsIn_decimal, List.headD_cons, countOf, Field.quantityText_decimal hnumeral]

theorem boundless_lacks : (((fieldsIn boundless).drop 1).length : Int) < (mostRecords : Int) * legacyFields := by
  obtain ⟨hpos, -, -⟩ := mostRecords_facts
  rw [boundless, fieldsIn_decimal, List.drop_one, List.tail_cons, List.length_nil, legacyFields]
  omega

theorem boundless_overdeclared : Overdeclared boundless :=
  ⟨mostRecords, countOf_boundless, boundless_lacks, mostRecords_facts.2.2⟩

/-- **A refusal need not be one of the payload**, neither of the text by itself nor in a frame. -/
theorem boundless_not_refused : parseSimple boundless = .error Field.unreadable ∧
    parseOutput (framed boundless) = .error Field.unreadable := by
  refine ⟨parseSimple_overdeclared boundless_overdeclared, parseOutput_overdeclared ?_⟩
  rw [boundless, extract_framed_decimal]
  exact boundless_overdeclared

end Payload
end AssertionReplay
