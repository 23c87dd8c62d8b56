/-
Rows of fields with bars between them.

A payload in the short form is a count and fields with bars between them. If
no part holds a bar, the parts that are read are those that were put together,
but for white space at the two ends of the whole, which is white space of the
first and of the last part (`fieldsIn_intercalate`). How many fields there are
tells how they are cut into rows (`parseSimple_of_fieldsIn`), and rows that
are read as records, one by one, are read as them all (`recordsOf_rows`).
-/
import AssertionReplay.Proofs.Fields

namespace AssertionReplay.Payload

open Text

/-! ## Parts between bars -/

theorem splitBars_append {ls : List Letter} (h : Letter.char '|' ∉ ls) (rest : List Letter) {part : List Letter}
    {parts : List (List Letter)} (hrest : splitBars rest = part :: parts) :
    splitBars (ls ++ rest) = (ls ++ part) :: parts := by
  induction ls with
  | nil => exact hrest
  | cons l ls ih =>
    simp only [List.mem_cons, not_or] at h
    rw [List.cons_append, splitBars, if_neg (by simpa using fun e => h.1 e.symm), ih h.2]
    rfl

theorem splitBars_intercalate {parts : List (List Letter)} (hne : parts ≠ [])
    (h : ∀ part ∈ parts, Letter.char '|' ∉ part) : splitBars ([.char '|'].intercalate parts) = parts := by
  obtain ⟨first, others, rfl⟩ := List.exists_cons_of_ne_nil hne
  rw [intercalate_cons]
  induction others generalizing first with
  | nil => exact (splitBars_append (h first (by simp)) [] rfl).trans (by rw [List.append_nil])
  | cons second others ih =>
    have hmore := ih second (by simp) fun part hpart => h part (List.mem_cons_of_mem _ hpart)
    have hbar : splitBars ((second :: others).flatMap (.char '|' :: ·)) = [] :: second :: others := by
      rw [List.flatMap_cons, List.cons_append, splitBars, if_pos (by simp), hmore]
    exact (splitBars_append (h first (by simp)) _ hbar).trans (by rw [List.append_nil])

/-- Whether the letter is white space. -/
abbrev blank : Letter → Bool := Letter.satisfies isBlank

/-- The text without the white space it starts with. -/
def trimStart (t : Text) : Text := ⟨t.letters.dropWhile blank⟩

/-- The text without the white space it ends with. -/
def trimEnd (t : Text) : Text := ⟨t.letters.rdropWhile blank⟩

theorem trim_eq (t : Text) : trim t = trimEnd (trimStart t) := rfl

theorem trim_trimStart (t : Text) : trim (trimStart t) = trim t := by
  refine congrArg Text.mk ?_
  rw [← List.takeWhile_append_dropWhile (p := blank) (l := t.letters),
    trimBy_append_left fun _ => List.mem_takeWhile_imp]
  rfl

theorem trim_trimEnd (t : Text) : trim (trimEnd t) = trim t := by
  refine congrArg Text.mk ?_
  conv_rhs => rw [← List.rdropWhile_append_rtakeWhile (p := blank) (l := t.letters),
    trimBy_append_right _ fun _ => List.mem_rtakeWhile_imp]
  rfl

/-- White space at the end of the last part is dropped. -/
def trimLast : List Text → List Text
  | [] => []
  | [t] => [trimEnd t]
  | t :: next :: rest => t :: trimLast (next :: rest)

/-- White space at both ends of the whole is dropped. -/
def trimEnds (parts : List Text) : List Text := trimLast (parts.modifyHead trimStart)

theorem rdropWhile_append_cons {p : α → Bool} {separator : α} (h : p separator = false) (xs ys : List α) :
    (xs ++ separator :: ys).rdropWhile p = xs ++ separator :: ys.rdropWhile p := by
  have hstop : (separator :: xs.reverse).dropWhile p = separator :: xs.reverse :=
    List.dropWhile_cons_of_neg (by simp [h])
  unfold List.rdropWhile
  rw [List.reverse_append, List.reverse_cons, List.append_assoc, List.singleton_append, List.dropWhile_append, hstop]
  split
  · rename_i hempty
    rw [List.isEmpty_iff.mp hempty]
    simp
  · simp

theorem dropWhile_append_cons {p : α → Bool} {separator : α} (h : p separator = false) (xs ys : List α) :
    (xs ++ separator :: ys).dropWhile p = xs.dropWhile p ++ separator :: ys := by
  rw [List.dropWhile_append]
  split
  · rename_i hempty
    rw [List.isEmpty_iff.mp hempty, List.dropWhile_cons_of_neg (by simp [h]), List.nil_append]
  · rfl

theorem letters_intercalate_cons_cons (first second : Text) (rest : List Text) :
    (Text.intercalate "|" (first :: second :: rest)).letters =
      first.letters ++ .char '|' :: (Text.intercalate "|" (second :: rest)).letters := by
  have hbar : ("|" : Text).letters = [.char '|'] := rfl
  rw [letters_intercalate, letters_intercalate, hbar, List.map_cons, List.map_cons, List.intercalate_cons_cons,
    List.append_assoc]
  rfl

theorem intercalate_singleton (t : Text) : Text.intercalate "|" [t] = t :=
  congrArg Text.mk ((letters_intercalate "|" [t]).trans (by simp))

theorem trimStart_intercalate (parts : List Text) :
    trimStart (Text.intercalate "|" parts) = Text.intercalate "|" (parts.modifyHead trimStart) := by
  rcases parts with _ | ⟨first, _ | ⟨second, rest⟩⟩
  · rfl
  · rw [List.modifyHead_cons, intercalate_singleton, intercalate_singleton]
  · refine congrArg Text.mk ?_
    rw [letters_intercalate_cons_cons, dropWhile_append_cons rfl]
    exact (letters_intercalate_cons_cons _ _ _).symm

theorem trimEnd_intercalate (parts : List Text) :
    trimEnd (Text.intercalate "|" parts) = Text.intercalate "|" (trimLast parts) := by
  induction parts with
  | nil => rfl
  | cons first parts ih =>
    cases parts with
    | nil => rw [trimLast, intercalate_singleton, intercalate_singleton]
    | cons second rest =>
      have hne : ∃ next more, trimLast (second :: rest) = next :: more := by
        cases rest <;> exact ⟨_, _, rfl⟩
      obtain ⟨next, more, hlast⟩ := hne
      rw [hlast] at ih
      -- The bar is no white space, so that nothing before it is dropped.
      refine congrArg Text.mk ?_
      rw [letters_intercalate_cons_cons, rdropWhile_append_cons rfl, trimLast, hlast]
      refine Eq.trans ?_ (letters_intercalate_cons_cons first next more).symm
      rw [← ih]
      rfl

theorem trim_intercalate (parts : List Text) :
    trim (Text.intercalate "|" parts) = Text.intercalate "|" (trimEnds parts) := by
  rw [trim_eq, trimStart_intercalate, trimEnd_intercalate]
  rfl

theorem mem_trimLast {parts : List Text} {t : Text} (h : t ∈ trimLast parts) :
    t ∈ parts ∨ ∃ s ∈ parts, t = trimEnd s := by
  induction parts with
  | nil => cases h
  | cons first parts ih =>
    cases parts with
    | nil => exact .inr ⟨first, by simp, by simpa [trimLast] using h⟩
    | cons second rest =>
      rcases List.mem_cons.mp h with rfl | h
      · exact .inl List.mem_cons_self
      · rcases ih h with h | ⟨s, hs, rfl⟩
        · exact .inl (List.mem_cons_of_mem _ h)
        · exact .inr ⟨s, List.mem_cons_of_mem _ hs, rfl⟩

/-- What holds of each part, and is kept by dropping white space at an end, holds of each part that is
read. -/
theorem forall_mem_trimEnds {P : Text → Prop} (hstart : ∀ t, P t → P (trimStart t)) (hend : ∀ t, P t → P (trimEnd t))
    {parts : List Text} (h : ∀ t ∈ parts, P t) : ∀ t ∈ trimEnds parts, P t := by
  have hhead : ∀ t ∈ parts.modifyHead trimStart, P t := by
    cases parts with
    | nil => exact h
    | cons first parts =>
      rw [List.forall_mem_cons] at h
      exact List.forall_mem_cons.mpr ⟨hstart first h.1, h.2⟩
  intro t ht
  rcases mem_trimLast ht with ht | ⟨s, hs, rfl⟩
  · exact hhead t ht
  · exact hend s (hhead s hs)

theorem trimEnds_ne_nil {parts : List Text} (h : parts ≠ []) : trimEnds parts ≠ [] := by
  obtain ⟨first, others, rfl⟩ := List.exists_cons_of_ne_nil h
  cases others <;> simp [trimEnds, trimLast]

theorem trimLast_eq_self {parts : List Text} (h : ∀ t ∈ parts.getLast?, trimEnd t = t) : trimLast parts = parts := by
  induction parts with
  | nil => rfl
  | cons first parts ih =>
    cases parts with
    | nil => rw [trimLast, h first rfl]
    | cons second rest => rw [trimLast, ih (by rwa [List.getLast?_cons_cons] at h)]

theorem trimEnds_eq_self {parts : List Text} (hfirst : ∀ t ∈ parts.head?, trimStart t = t)
    (hlast : ∀ t ∈ parts.getLast?, trimEnd t = t) : trimEnds parts = parts := by
  have hhead : parts.modifyHead trimStart = parts := by
    cases parts with
    | nil => rfl
    | cons first parts => rw [List.modifyHead_cons, hfirst first rfl]
  rw [trimEnds, hhead, trimLast_eq_self hlast]

theorem ends_of_trim {t : Text} (h : trim t = t) : trimStart t = t ∧ trimEnd t = t := by
  have htrimmed : Trimmed blank t.letters := by
    have hletters : trimBy blank t.letters = t.letters := congrArg Text.letters h
    rw [← hletters]
    exact trimmed_trimBy blank t.letters
  exact (trimmed_iff.mp htrimmed).imp (congrArg Text.mk) (congrArg Text.mk)

/-- The texts between the bars of a payload: its count, and the fields of its records. -/
def fieldsIn (payload : Text) : List Text := (splitBars (trim payload).letters).map Text.mk

/-- A text that holds no bar. -/
def Barless (t : Text) : Prop := Letter.char '|' ∉ t.letters

theorem Barless.trimStart {t : Text} (h : Barless t) : Barless (trimStart t) :=
  fun hmem => h ((List.dropWhile_sublist _).subset hmem)

theorem Barless.trimEnd {t : Text} (h : Barless t) : Barless (trimEnd t) :=
  fun hmem => h (List.IsPrefix.subset (List.rdropWhile_prefix _ _) hmem)

theorem Clean.barless {t : Text} (h : Clean t) : Barless t := by
  obtain ⟨cs, rfl, hbar, -⟩ := h
  simpa [Barless] using hbar

theorem parts_intercalate {parts : List Text} (hne : parts ≠ []) (h : ∀ t ∈ parts, Barless t) :
    (splitBars (Text.intercalate "|" parts).letters).map Text.mk = parts := by
  have hbar : ∀ part ∈ parts.map letters, Letter.char '|' ∉ part := List.forall_mem_map.mpr h
  have hletters : (Text.intercalate "|" parts).letters = [.char '|'].intercalate (parts.map letters) :=
    letters_intercalate "|" _
  rw [hletters, splitBars_intercalate (by simpa using hne) hbar, List.map_map]
  exact List.map_id _

/-- **The parts that are read** are they too, but for white space at the two ends of the whole. -/
theorem fieldsIn_intercalate {parts : List Text} (hne : parts ≠ []) (h : ∀ t ∈ parts, Barless t) :
    fieldsIn (Text.intercalate "|" parts) = trimEnds parts := by
  rw [fieldsIn, trim_intercalate]
  exact parts_intercalate (trimEnds_ne_nil hne)
    (forall_mem_trimEnds (P := Barless) (fun _ ht => ht.trimStart) (fun _ ht => ht.trimEnd) h)

/-! ## Counts -/

theorem countOf_decimal {n : Nat} (h : HasNumeral n) : countOf (decimal n) = .ok (n : Int) := by
  rw [countOf, Field.quantityText_decimal h]

theorem countOf_decimal_error {n : Nat} (h : ¬ HasNumeral n) :
    countOf (decimal n) = .error (.payload (.badCount (decimal n))) := by
  rw [countOf, Field.quantityText_decimal_error h]
  rfl

/-! ## Rows -/

/-- What a number of fields is read as, if so many records are declared: rows of full records if there
are fields for them, else rows of short ones. -/
def readFields (count : Nat) (fields : List Text) : Except Fault (List Record) :=
  if count * extendedFields ≤ fields.length then recordsOf extendedFields true count fields
  else if count * legacyFields ≤ fields.length then recordsOf legacyFields false count fields
  else
    match decimal? count, decimal? (count * legacyFields) with
    | some declared, some needed => .error (.payload (.truncated declared fields.length needed))
    | _, _ => .error (.value .unreadable)

theorem parseSimple_of_fieldsIn {payload count : Text} {fields : List Text} {n : Nat}
    (h : fieldsIn payload = count :: fields) (hcount : countOf count = .ok (n : Int)) :
    parseSimple payload = readFields n fields := by
  have hparts : (splitBars (trim payload).letters).map Text.mk = count :: fields := h
  unfold parseSimple readFields
  dsimp only
  rw [hparts]
  simp only [List.headD_cons, List.drop_one, List.tail_cons, hcount, bind, Except.bind, Int.toNat_natCast, beq_iff_eq]
  have hwide : ∀ width : Nat, (n : Int) * width ≤ fields.length ↔ n * width ≤ fields.length := by
    intro width
    rw [← Int.natCast_mul, Int.ofNat_le]
  split
  · rename_i hzero
    obtain rfl : n = 0 := by omega
    rw [Nat.zero_mul, if_pos (Nat.zero_le _)]
    rfl
  by_cases hextended : n * extendedFields ≤ fields.length
  · rw [if_pos hextended, if_pos ((hwide _).mpr hextended)]
  rw [if_neg hextended, if_neg (mt (hwide _).mp hextended)]
  by_cases hlegacy : n * legacyFields ≤ fields.length
  · rw [if_pos hlegacy, if_pos ((hwide _).mpr hlegacy)]
  · exact (if_neg (mt (hwide _).mp hlegacy)).trans (if_neg hlegacy).symm

theorem parseSimple_of_badCount {payload count : Text} {fields : List Text} {e : Fault}
    (h : fieldsIn payload = count :: fields) (hcount : countOf count = .error e) : parseSimple payload = .error e := by
  have hparts : (splitBars (trim payload).letters).map Text.mk = count :: fields := h
  unfold parseSimple
  dsimp only
  rw [hparts, List.headD_cons, hcount]
  rfl

/-- The fields of a row are read as a record. -/
structure Row (width : Nat) (extended : Bool) (fields : List Text) (r : Record) : Prop where
  length : fields.length = width
  read : recordOf fields extended = .ok r

variable {width : Nat} {extended : Bool} {rows : List (List Text)} {rs : List Record}

theorem length_rows (h : List.Forall₂ (Row width extended) rows rs) : rows.flatten.length = rs.length * width := by
  induction h with
  | nil => simp
  | cons hrow _ ih =>
    rw [List.flatten_cons, List.length_append, hrow.length, ih, List.length_cons, Nat.succ_mul, Nat.add_comm]

/-- **Rows are read as their records**, one by one. -/
theorem recordsOf_rows (h : List.Forall₂ (Row width extended) rows rs) :
    recordsOf width extended rs.length rows.flatten = .ok rs := by
  induction h with
  | nil => rfl
  | cons hrow _ ih =>
    rw [List.length_cons, recordsOf, List.flatten_cons, List.take_left' hrow.length, List.drop_left' hrow.length,
      hrow.read, ih]
    rfl

theorem readFields_extended (h : List.Forall₂ (Row extendedFields true) rows rs) :
    readFields rs.length rows.flatten = .ok rs := by
  rw [readFields, if_pos (length_rows h).ge, recordsOf_rows h]

theorem readFields_legacy (h : List.Forall₂ (Row legacyFields false) rows rs) :
    readFields rs.length rows.flatten = .ok rs := by
  have hlength := length_rows h
  by_cases hnone : rs.length = 0
  · obtain rfl : rs = [] := List.eq_nil_of_length_eq_zero hnone
    cases h
    rfl
  · have hfew : ¬ rs.length * extendedFields ≤ rows.flatten.length := by
      rw [hlength]
      unfold legacyFields extendedFields
      omega
    rw [readFields, if_neg hfew, if_pos hlength.ge, recordsOf_rows h]

end AssertionReplay.Payload
