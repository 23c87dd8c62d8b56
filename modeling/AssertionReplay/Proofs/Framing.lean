/-
The payload is found in its frame, whatever stands around the frame.

The colon of the marker is its last letter and stands nowhere else in it, so
two markers never overlap, and none begins in what is before a marker and ends
in the marker (`EndsOnce.eq_of_border`). Text before the frame that holds no
marker, and any text after it, therefore leave the payload where it is
(`extract_framed`), and the markers of the frame are the only ones
(`markers_framed`).
-/
import AssertionReplay.Payload.Reader
import AssertionReplay.Payload.Writer
import AssertionReplay.Proofs.Letters
import Mathlib.Data.List.Infix

namespace AssertionReplay.Payload

open Text

/-- The marker stands somewhere in the text. -/
def HasMarker (t : Text) : Prop := marker.letters <:+: t.letters

instance (t : Text) : Decidable (HasMarker t) := inferInstanceAs (Decidable (marker.letters <:+: t.letters))

/-! ## Parts that do not overlap -/

/-- The last letter of the part stands nowhere else in it. -/
def EndsOnce (part : List Letter) : Prop := ∃ body last, part = body ++ [last] ∧ last ∉ body

theorem marker_endsOnce : EndsOnce marker.letters := ⟨marker.letters.dropLast, .char ':', rfl, by decide⟩

variable {part : List Letter}

theorem EndsOnce.ne_nil (h : EndsOnce part) : part ≠ [] := by
  obtain ⟨body, last, rfl, -⟩ := h
  simp

/-- What begins and ends such a part is all of it. -/
theorem EndsOnce.eq_of_border (h : EndsOnce part) {border : List Letter} (hne : border ≠ [])
    (hopens : border <+: part) (hcloses : border <:+ part) : border = part := by
  obtain ⟨body, last, rfl, hlast⟩ := h
  rcases List.prefix_concat_iff.mp hopens with heq | hbody
  · exact heq
  · obtain ⟨rest, hrest⟩ := hcloses
    have hends : border.getLast? = some last := by
      rw [← List.getLast?_append_of_ne_nil rest hne, hrest, List.getLast?_concat]
    exact absurd (hbody.subset (List.mem_of_getLast? hends)) hlast

/-- Such a part that begins before itself ends before it. -/
theorem EndsOnce.prefix_of_prefix_append (h : EndsOnce part) {before after : List Letter} (hne : before ≠ [])
    (hpart : part <+: before ++ (part ++ after)) : part <+: before := by
  rcases List.prefix_or_prefix_of_prefix hpart (List.prefix_append before _) with hin | ⟨rest, hrest⟩
  · exact hin
  -- What is left of the part after the text before it begins the part and ends it.
  have hlength := congrArg List.length hrest
  rw [List.length_append] at hlength
  have hover : rest <+: part ++ after := by
    obtain ⟨more, hmore⟩ := hpart
    rw [← hrest, List.append_assoc, hrest, List.append_cancel_left_eq] at hmore
    exact ⟨more, hmore⟩
  have hborder : rest <+: part := List.prefix_of_prefix_length_le hover (List.prefix_append _ _) (by omega)
  by_cases hrest' : rest = []
  · rw [hrest', List.append_nil] at hrest
    exact hrest ▸ List.prefix_refl _
  · have hall := h.eq_of_border hrest' hborder ⟨before, hrest⟩
    rw [hall] at hlength
    exact absurd (List.eq_nil_of_length_eq_zero (by omega)) hne

/-- **The first place.** Such a part is found right after what does not hold it. -/
theorem EndsOnce.splitAt?_append (h : EndsOnce part) {before after : List Letter} (hbefore : ¬ part <:+: before) :
    splitAt? part (before ++ (part ++ after)) = some (before, after) := by
  induction before with
  | nil =>
    rcases hpart : part ++ after with _ | ⟨l, ls⟩
    · obtain ⟨rfl, rfl⟩ := List.append_eq_nil_iff.mp hpart
      rfl
    · have hhere : part.isPrefixOf (l :: ls) = true := by
        rw [List.isPrefixOf_iff_prefix, ← hpart]
        exact List.prefix_append _ _
      rw [List.nil_append, splitAt?, if_pos hhere, ← hpart, List.drop_left]
  | cons l before ih =>
    have hthere : part.isPrefixOf (l :: (before ++ (part ++ after))) = false := by
      rw [Bool.eq_false_iff, Ne, List.isPrefixOf_iff_prefix, ← List.cons_append]
      exact fun hpart => hbefore (h.prefix_of_prefix_append (by simp) hpart).isInfix
    rw [List.cons_append, splitAt?, hthere, ih fun hin => hbefore (hin.trans (List.suffix_cons l before).isInfix)]
    rfl

theorem splitAt?_marker {before : List Letter} (after : List Letter) (h : ¬ marker.letters <:+: before) :
    splitAt? marker.letters (before ++ (marker.letters ++ after)) = some (before, after) :=
  marker_endsOnce.splitAt?_append h

/-! ## How often a part stands -/

/-- In how many places a part stands. -/
def places (part ls : List Letter) : Nat := ls.tails.countP part.isPrefixOf

/-- In how many places the marker stands in a text. -/
def markers (t : Text) : Nat := places marker.letters t.letters

theorem places_eq_zero_iff {ls : List Letter} : places part ls = 0 ↔ ¬ part <:+: ls := by
  rw [places, List.countP_eq_zero]
  simp only [List.mem_tails, List.isPrefixOf_iff_prefix, List.infix_iff_prefix_suffix, not_exists, not_and]
  exact forall_congr' fun _ => imp_not_comm

theorem places_cons (l : Letter) (ls : List Letter) :
    places part (l :: ls) = places part ls + if part <+: l :: ls then 1 else 0 := by
  simp only [places, List.tails, List.countP_cons, List.isPrefixOf_iff_prefix]

/-- No place of such a part is in what is left of it. -/
theorem EndsOnce.places_rest (h : EndsOnce part) (done : List Letter) {rest : List Letter} (hne : done ≠ [])
    (hrest : done ++ rest = part) (after : List Letter) : places part (rest ++ after) = places part after := by
  induction rest generalizing done with
  | nil => rfl
  | cons l rest ih =>
    have hlength := congrArg List.length hrest
    simp only [List.length_append, List.length_cons] at hlength
    have hthere : ¬ part <+: l :: (rest ++ after) := by
      intro hpart
      have hborder : l :: rest <+: part :=
        List.prefix_of_prefix_length_le (List.prefix_append (l :: rest) after) hpart (by simp; omega)
      have hall := congrArg List.length (h.eq_of_border (by simp) hborder ⟨done, hrest⟩)
      rw [List.length_cons] at hall
      exact hne (List.eq_nil_of_length_eq_zero (by omega))
    rw [List.cons_append, places_cons, if_neg hthere, ih (done ++ [l]) (by simp) (by simpa using hrest),
      Nat.add_zero]

/-- **No place is made or lost at a seam.** -/
theorem EndsOnce.places_append (h : EndsOnce part) (before after : List Letter) :
    places part (before ++ (part ++ after)) = places part before + 1 + places part after := by
  induction before with
  | nil =>
    obtain ⟨l, rest, hpart⟩ := List.exists_cons_of_ne_nil h.ne_nil
    have hhere : part <+: l :: (rest ++ after) := ⟨after, by rw [hpart, List.cons_append]⟩
    have hnone : places part [] = 0 := places_eq_zero_iff.mpr fun hin => h.ne_nil (List.infix_nil.mp hin)
    have hplaces : places part (part ++ after) = places part (l :: (rest ++ after)) := congrArg _ (by rw [hpart]; rfl)
    rw [List.nil_append, hplaces, places_cons, if_pos hhere, h.places_rest [l] (by simp) hpart.symm, hnone]
    omega
  | cons l before ih =>
    have hseam : part <+: l :: (before ++ (part ++ after)) ↔ part <+: l :: before :=
      ⟨h.prefix_of_prefix_append (List.cons_ne_nil l before), fun hin => hin.trans (List.prefix_append (l :: before) _)⟩
    rw [List.cons_append, places_cons, places_cons, ih]
    simp only [hseam]
    omega

/-! ## The marker -/

theorem not_hasMarker_of_letter {t : Text} {l : Letter} (hl : l ∈ marker.letters) (h : l ∉ t.letters) :
    ¬ HasMarker t :=
  fun hmarker => h (hmarker.subset hl)

theorem not_hasMarker {t : Text} (h : Letter.char 'T' ∉ t.letters) : ¬ HasMarker t :=
  not_hasMarker_of_letter (by decide) h

theorem letters_framed (payload : Text) : (framed payload).letters =
    marker.letters ++ ((ofString "START\n").letters ++ (marker.letters ++ (payload.letters ++
      (marker.letters ++ (ofString "END\n").letters)))) := by
  simp only [framed, frameHead, frameBody, letters_append, List.append_assoc]

theorem not_hasMarker_start : ¬ HasMarker "START\n" := fun h => absurd h.length_le (by decide)

theorem not_hasMarker_end : ¬ HasMarker "END\n" := fun h => absurd h.length_le (by decide)

/-- **The frame.** What stands in it is extracted from every text that has no marker before the
frame, if it has no marker and no white space at its end. -/
theorem extract_framed {before payload : Text} (after : Text) (hbefore : ¬ HasMarker before)
    (hpayload : ¬ HasMarker payload)
    (hend : payload.letters.rdropWhile (Letter.satisfies isBlank) = payload.letters) :
    extract (before ++ framed payload ++ after) = payload := by
  unfold extract
  simp only [letters_append, letters_framed, List.append_assoc, splitAt?_marker _ hbefore,
    splitAt?_marker _ not_hasMarker_start, splitAt?_marker _ hpayload, Option.bind_eq_bind, Option.bind_some]
  rw [dropRightWhile_eq, hend]

theorem markers_framed {before payload : Text} (hbefore : ¬ HasMarker before) (hpayload : ¬ HasMarker payload) :
    markers (before ++ framed payload) = 3 := by
  have hnone : ∀ {t : Text}, ¬ HasMarker t → places marker.letters t.letters = 0 := places_eq_zero_iff.mpr
  simp only [markers, letters_append, letters_framed, marker_endsOnce.places_append, hnone hbefore,
    hnone not_hasMarker_start, hnone hpayload, hnone not_hasMarker_end]

end AssertionReplay.Payload
