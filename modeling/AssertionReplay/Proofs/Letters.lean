/-
Texts up to letter case, and up to white space at their ends.

Hashes and recipients are compared by their lower case forms. A form is empty
only if the text is (`lower_isEmpty`), so what is given stays given, and the
comparison of two raw addresses is a test of one text against the other
(`Address.same_of_textual`). A text with no white space at its ends
(`Trimmed`) is what is left of it when it is trimmed.
-/
import AssertionReplay.Address
import Mathlib.Data.List.DropRight

namespace AssertionReplay

open Text

namespace Text

theorem isEmpty_iff {t : Text} : t.isEmpty = true ↔ t = ⟨[]⟩ := by
  cases t
  simp [Text.isEmpty]

theorem lowerChar_ne_nil (c : Char) : lowerChar c ≠ [] := by
  unfold lowerChar
  dsimp only
  split
  · split <;> simp
  · split
    · simp
    · split <;> simp

theorem lowerLetter_ne_nil (before : List Letter) (l : Letter) (after : List Letter) :
    lowerLetter before l after ≠ [] := by
  unfold lowerLetter
  split
  · simp
  · split
    · simp
    · simpa using lowerChar_ne_nil _

theorem lower_isEmpty (t : Text) : (lower t).isEmpty = t.isEmpty := by
  obtain ⟨letters⟩ := t
  cases letters with
  | nil => rfl
  | cons l ls => simp [Text.isEmpty, lower, lowerAfter, lowerLetter_ne_nil]

/-! ## The letters of a text -/

@[simp] theorem letters_append (s t : Text) : (s ++ t).letters = s.letters ++ t.letters := rfl

@[simp] theorem letters_ofChars (cs : List Char) : (ofChars cs).letters = cs.map .char := rfl

theorem ofString_ofList (cs : List Char) : ofString (String.ofList cs) = ofChars cs := by
  rw [ofString, String.toList_ofList]

theorem ofString_inj {s t : String} : ofString s = ofString t ↔ s = t := by
  refine ⟨fun h => String.toList_inj.mp ?_, congrArg ofString⟩
  exact List.map_injective_iff.mpr (fun _ _ => Letter.char.inj) (congrArg letters h)

theorem chars?_ofChars (cs : List Char) : (ofChars cs).chars? = some cs :=
  chars?_eq_some_iff.mpr rfl

/-! ## Texts with a separator between them -/

theorem intercalate_cons (separator : α) (first : List α) (others : List (List α)) :
    [separator].intercalate (first :: others) = first ++ others.flatMap (separator :: ·) := by
  induction others generalizing first with
  | nil => simp
  | cons second others ih => rw [List.intercalate_cons_cons, ih]; simp

theorem mem_intercalate {separator x : α} {lists : List (List α)} (h : x ∈ [separator].intercalate lists) :
    x = separator ∨ ∃ xs ∈ lists, x ∈ xs := by
  cases lists with
  | nil => cases h
  | cons first others =>
    rw [intercalate_cons, List.mem_append, List.mem_flatMap] at h
    rcases h with h | ⟨xs, hxs, h⟩
    · exact .inr ⟨first, by simp, h⟩
    · exact (List.mem_cons.mp h).imp id fun h => ⟨xs, List.mem_cons_of_mem _ hxs, h⟩

theorem letters_intercalate (separator : Text) (ts : List Text) :
    (Text.intercalate separator ts).letters = separator.letters.intercalate (ts.map letters) := by
  rw [Text.intercalate, Text.join, List.intercalate, List.flatMap_def]
  congr 1
  induction ts with
  | nil => rfl
  | cons t ts ih => cases ts <;> simp_all

theorem getLast?_intercalate {separator : α} {lists : List (List α)} {last : List α}
    (h : lists.getLast? = some last) (hne : last ≠ []) :
    ([separator].intercalate lists).getLast? = last.getLast? := by
  cases lists with
  | nil => cases h
  | cons first others =>
    rw [intercalate_cons]
    rcases List.eq_nil_or_concat others with rfl | ⟨others, last', rfl⟩
    · cases h
      simp
    · rw [List.concat_eq_append, ← List.cons_append, List.getLast?_concat] at h
      cases h
      rw [List.concat_eq_append, List.flatMap_append, ← List.append_assoc, List.flatMap_singleton,
        List.getLast?_append_of_ne_nil _ (by simp), List.getLast?_cons_of_ne_nil hne]

/-! ## White space at the ends -/

/-- The letters at both ends are none of those that `p` drops. -/
def Trimmed (p : α → Bool) (xs : List α) : Prop :=
  (∀ x ∈ xs.head?, p x = false) ∧ ∀ x ∈ xs.getLast?, p x = false

theorem dropRightWhile_eq (p : α → Bool) (xs : List α) : dropRightWhile p xs = xs.rdropWhile p := rfl

theorem trimmed_iff {p : α → Bool} {xs : List α} : Trimmed p xs ↔ xs.dropWhile p = xs ∧ xs.rdropWhile p = xs := by
  rw [List.dropWhile_eq_self_iff, List.rdropWhile_eq_self_iff, Trimmed]
  cases xs with
  | nil => simp
  | cons x xs => simp [List.getLast?_eq_some_getLast (List.cons_ne_nil x xs)]

theorem Trimmed.trimBy {p : α → Bool} {xs : List α} (h : Trimmed p xs) : trimBy p xs = xs := by
  obtain ⟨hleft, hright⟩ := trimmed_iff.mp h
  rw [Text.trimBy, hleft, dropRightWhile_eq, hright]

theorem head?_dropWhile (p : α → Bool) (xs : List α) : ∀ x ∈ (xs.dropWhile p).head?, p x = false := by
  intro x hx
  have := List.head?_dropWhile_not p xs
  rw [hx] at this
  simpa using this

theorem mem_trimBy_or {p : α → Bool} {xs : List α} {x : α} (hx : x ∈ xs) : x ∈ trimBy p xs ∨ p x = true := by
  rw [← List.takeWhile_append_dropWhile (p := p) (l := xs), List.mem_append] at hx
  rcases hx with h | h
  · exact .inr (List.mem_takeWhile_imp h)
  · rw [← List.rdropWhile_append_rtakeWhile (p := p) (l := xs.dropWhile p), List.mem_append] at h
    exact h.imp id fun h => List.mem_rtakeWhile_imp h

theorem trimmed_trimBy (p : α → Bool) (xs : List α) : Trimmed p (trimBy p xs) := by
  constructor
  · intro x hx
    rw [trimBy, dropRightWhile_eq] at hx
    obtain ⟨rest, hrest⟩ := List.rdropWhile_prefix p (xs.dropWhile p)
    refine head?_dropWhile p xs x ?_
    rw [← hrest, List.head?_append_of_ne_nil]
    · exact hx
    · intro hnil
      rw [hnil] at hx
      cases hx
  · intro x hx
    exact head?_dropWhile p _ x (by simpa [trimBy, dropRightWhile] using hx)

theorem trimmed_of_none {p : α → Bool} {xs : List α} (h : ∀ x ∈ xs, p x = false) : Trimmed p xs :=
  ⟨fun x hx => h x (List.mem_of_mem_head? hx), fun x hx => h x (List.mem_of_mem_getLast? hx)⟩

theorem trimBy_append_left {p : α → Bool} {xs : List α} (h : ∀ x ∈ xs, p x = true) (ys : List α) :
    trimBy p (xs ++ ys) = trimBy p ys := by
  rw [trimBy, trimBy, List.dropWhile_append_of_pos h]

theorem trimBy_append_right {p : α → Bool} (xs : List α) {ys : List α} (h : ∀ y ∈ ys, p y = true) :
    trimBy p (xs ++ ys) = trimBy p xs := by
  have hright : ∀ zs : List α, dropRightWhile p (zs ++ ys) = dropRightWhile p zs := by
    intro zs
    rw [dropRightWhile, List.reverse_append, List.dropWhile_append_of_pos (by simpa using h), ← dropRightWhile]
  have hys : ys.dropWhile p = [] := List.dropWhile_eq_nil_iff.mpr h
  rw [trimBy, trimBy, List.dropWhile_append]
  split
  · rename_i hempty
    rw [hys, List.isEmpty_iff.mp hempty]
  · exact hright _

/-- The text has a last letter, which is not white space. -/
def Unpadded (t : Text) : Prop := ∃ l, t.letters.getLast? = some l ∧ l.satisfies isBlank = false

theorem Unpadded.rdropWhile {t : Text} (h : Unpadded t) :
    t.letters.rdropWhile (Letter.satisfies isBlank) = t.letters := by
  obtain ⟨last, hlast, hblank⟩ := h
  refine List.rdropWhile_eq_self_iff.mpr fun hne => ?_
  rw [List.getLast?_eq_some_getLast hne, Option.some.injEq] at hlast
  rw [hlast, hblank]
  exact Bool.false_ne_true

theorem unpadded_ofChars {cs : List Char} (hne : cs ≠ []) (h : ∀ c ∈ cs, isBlank c = false) :
    Unpadded (ofChars cs) := by
  refine ⟨.char (cs.getLast hne), ?_, h _ (List.getLast_mem hne)⟩
  rw [letters_ofChars, List.getLast?_map, List.getLast?_eq_some_getLast hne]
  rfl

theorem trim_padded {before cs after : List Char} (h : ∀ c ∈ before ++ after, isBlank c = true) :
    trim (ofChars (before ++ cs ++ after)) = trim (ofChars cs) := by
  have hblank : ∀ l ∈ before.map Letter.char ++ after.map Letter.char, l.satisfies isBlank = true := by
    rw [← List.map_append]
    exact List.forall_mem_map.mpr h
  rw [List.forall_mem_append] at hblank
  refine congrArg Text.mk ?_
  rw [letters_ofChars, List.map_append, List.map_append, trimBy_append_right _ hblank.2, trimBy_append_left hblank.1]
  rfl

theorem trim_ofChars {cs : List Char} (h : ∀ c ∈ cs, isBlank c = false) :
    trim (ofChars cs) = ofChars cs := by
  refine congrArg Text.mk (trimmed_of_none fun l hl => ?_).trimBy
  obtain ⟨c, hc, rfl⟩ := List.mem_map.mp hl
  exact h c hc

end Text

namespace Address

theorem lowered_eq_ok_iff {v : Json} {t : Text} : lowered v = .ok t ↔ ∃ h, v = .str h ∧ t = lower h := by
  cases v <;> simp [lowered, eq_comm]

/-- Whether a recipient is the address, up to letter case. -/
def names (address : Text) : Json → Bool
  | .str t => !t.isEmpty && lower t == lower address
  | _ => false

/-- The recipient is not given, or is a text. -/
def Textual (v : Json) : Prop := v.isGiven = false ∨ ∃ t, v = .str t

theorem names_of_not_given {address : Text} {v : Json} (h : v.isGiven = false) :
    names address v = false := by
  cases v <;> simp_all [names, Json.isGiven]

/-- **Comparing raw addresses.** The comparison of a recipient with an address succeeds, and tells
whether the recipient is the address up to letter case. -/
theorem same_of_textual {address : Text} {v : Json} (h : Textual v) :
    same v (.str address) = .ok (names address v) := by
  by_cases hv : v.isGiven = true
  · obtain ⟨t, rfl⟩ := h.resolve_left (by simp [hv])
    by_cases ha : address.isEmpty = true
    · have hlower : lower t ≠ lower address := by
        intro he
        have := lower_isEmpty t
        rw [he, lower_isEmpty, ha] at this
        simp [Json.isGiven, ← this] at hv
      simp [same, Json.isGiven, ha, names, hlower]
    · simp only [Json.isGiven, Bool.not_eq_true'] at hv
      simp [same, Json.isGiven, ha, hv, names, lowered, bind, Except.bind, pure, Except.pure]
  · simp only [Bool.not_eq_true] at hv
    simp [same, hv, names_of_not_given hv]

/-- Textual or not, a recipient compares equal only if it is the address. -/
theorem same_eq_true_iff {address : Text} {v : Json} :
    same v (.str address) = .ok true ↔ names address v = true := by
  cases v with
  | str t => rw [same_of_textual (.inr ⟨t, rfl⟩), Except.ok.injEq]
  | _ =>
    refine iff_of_false (fun h => ?_) (by simp [names])
    unfold same at h
    split at h <;> cases h

theorem textual_of_parse {v : Json} {a : String} (h : parse v = .ok a) : Textual v := by
  unfold parse parseWith at h
  by_cases hv : v.isGiven = true
  · simp only [hv, Bool.not_true, Bool.false_eq_true, if_false] at h
    split at h
    · exact .inr ⟨_, rfl⟩
    · cases h
  · exact .inl (by simpa using hv)

end Address
end AssertionReplay
