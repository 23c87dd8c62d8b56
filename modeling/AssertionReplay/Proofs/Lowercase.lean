/-
Lower case is reached in one step.

No capital letter is left in a text that was put into lower case, whatever
the script, and no white space comes in (`lower_lower`, `trim_lower_trim`).
What carries this is a fact about the case table: the forms that one of its
runs leads to are in no run themselves, are no white space, and are neither
of the two capitals that are treated apart.
-/
import AssertionReplay.Proofs.Letters
import AssertionReplay.Text.Blank

namespace AssertionReplay.Text

/-! ## The case table -/

/-- The first code point that a run of the case table leads to. -/
def imageFirst (run : Nat × Nat × Nat × Int) : Nat := (run.1 + run.2.2.2).toNat

/-- The last one. -/
def imageLast (run : Nat × Nat × Nat × Int) : Nat := imageFirst run + (run.2.1 - run.1)

/-- Whether what a run leads to is outside of a range of code points. -/
def leadsOutside (run : Nat × Nat × Nat × Int) (range : Nat × Nat) : Bool :=
  Nat.blt (imageLast run) range.1 || Nat.blt range.2 (imageFirst run)

/-- Whether what a run leads to is in no place of another run: it is outside of it, or both go in
steps of two and miss each other. -/
def leadsBeside (run other : Nat × Nat × Nat × Int) : Bool :=
  leadsOutside run (other.1, other.2.1) ||
    (Nat.beq other.2.2.1 2 && Nat.beq ((imageFirst run + other.1) % 2) 1 &&
      (Nat.beq run.2.2.1 2 || Nat.beq run.1 run.2.1))

def blankRanges : List (Nat × Nat) :=
  [(9, 13), (28, 32), (0x85, 0x85), (0xA0, 0xA0), (0x1680, 0x1680), (0x2000, 0x200A), (0x2028, 0x2029),
    (0x202F, 0x202F), (0x205F, 0x205F), (0x3000, 0x3000)]

/-- The capital letters of ASCII, the two capitals that are treated apart, and the code points that are
no characters. -/
def capitalRanges : List (Nat × Nat) :=
  [(65, 90), (0x130, 0x130), (0x3A3, 0x3A3), (0xD800, 0xDFFF)]

theorem lowerRuns_lead :
    (lowerRuns.all fun run => (blankRanges ++ capitalRanges).all (leadsOutside run)) = true := by
  decide +kernel

theorem lowerRuns_apart :
    (lowerRuns.all fun run => lowerRuns.all (leadsBeside run)) = true := by decide +kernel

theorem lowerRuns_start :
    (lowerRuns.all fun run => Nat.ble (imageLast run) 0x10FFFF && decide (0 ≤ (run.1 : Int) + run.2.2.2)) =
      true := by decide +kernel

/-- A code point that a run of the case table holds. -/
def InRun (run : Nat × Nat × Nat × Int) (n : Nat) : Prop :=
  run.1 ≤ n ∧ n ≤ run.2.1 ∧ (n - run.1) % run.2.2.1 = 0

theorem lowerShift_cases (n : Nat) :
    (∃ run ∈ lowerRuns, InRun run n ∧ lowerShift n = run.2.2.2) ∨ lowerShift n = 0 := by
  unfold lowerShift
  split
  · rename_i run hfind
    have hin := List.find?_some hfind
    simp only [Bool.and_eq_true, decide_eq_true_eq, beq_iff_eq] at hin
    exact .inl ⟨run, List.mem_of_find?_eq_some hfind, ⟨hin.1.1, hin.1.2, hin.2⟩, rfl⟩
  · exact .inr rfl

theorem lowerShift_eq_zero {n : Nat} (h : ∀ run ∈ lowerRuns, ¬ InRun run n) : lowerShift n = 0 := by
  rcases lowerShift_cases n with ⟨run, hrun, hin, -⟩ | hzero
  · exact absurd hin (h run hrun)
  · exact hzero

theorem InRun.image {run : Nat × Nat × Nat × Int} {n : Nat} (hrun : run ∈ lowerRuns) (h : InRun run n) :
    (n + run.2.2.2).toNat = imageFirst run + (n - run.1) := by
  have hstart := List.all_eq_true.mp lowerRuns_start run hrun
  simp only [Bool.and_eq_true, decide_eq_true_eq] at hstart
  have := h.1
  unfold imageFirst
  omega

theorem InRun.image_outside {run : Nat × Nat × Nat × Int} {n : Nat} {range : Nat × Nat} (h : InRun run n)
    (hout : leadsOutside run range = true) :
    ¬ (range.1 ≤ imageFirst run + (n - run.1) ∧ imageFirst run + (n - run.1) ≤ range.2) := by
  obtain ⟨hfirst, hlast, -⟩ := h
  simp only [leadsOutside, Bool.or_eq_true, Nat.blt_eq, imageLast] at hout
  omega

theorem InRun.image_settled {run : Nat × Nat × Nat × Int} {n : Nat} (hrun : run ∈ lowerRuns)
    (h : InRun run n) : lowerShift (imageFirst run + (n - run.1)) = 0 := by
  refine lowerShift_eq_zero fun other hother hin => ?_
  have hapart := List.all_eq_true.mp (List.all_eq_true.mp lowerRuns_apart run hrun) other hother
  obtain ⟨hfirst, hlast, hstep⟩ := hin
  simp only [leadsBeside, Bool.or_eq_true, Bool.and_eq_true, Nat.beq_eq] at hapart
  rcases hapart with hout | ⟨⟨htwo, hodd⟩, hself⟩
  · exact h.image_outside hout ⟨hfirst, hlast⟩
  · obtain ⟨hfirst', hlast', hstep'⟩ := h
    rw [htwo] at hstep
    rcases hself with hself | hself
    · rw [hself] at hstep'
      omega
    · omega

/-! ## Characters -/

/-- A character that is its own lower case form wherever it stands. -/
def Settled (c : Char) : Prop := c.toNat ≠ 0x3A3 ∧ lowerChar c = [c]

theorem toNat_ofNat {n : Nat} (h : n < 0xD800 ∨ 0xDFFF < n ∧ n < 0x110000) : (Char.ofNat n).toNat = n := by
  have hvalid : n.isValidChar := by
    rcases h with h | ⟨h₁, h₂⟩
    · exact .inl h
    · exact .inr ⟨h₁, h₂⟩
  rw [Char.ofNat, dif_pos hvalid]
  rfl

theorem settled_of_shift {c : Char} (hascii : ¬ (65 ≤ c.toNat ∧ c.toNat ≤ 90)) (hI : c.toNat ≠ 0x130)
    (hS : c.toNat ≠ 0x3A3) (hshift : lowerShift c.toNat = 0) : Settled c := by
  refine ⟨hS, ?_⟩
  unfold lowerChar
  dsimp only
  split
  · rw [if_neg (by simpa using hascii)]
  · rw [if_neg (by simpa using hI), hshift]
    rfl

theorem isBlank_iff {c : Char} :
    isBlank c = true ↔ ∃ range ∈ blankRanges, range.1 ≤ c.toNat ∧ c.toNat ≤ range.2 := by
  simp only [isBlank, blankRanges, Bool.or_eq_true, Bool.and_eq_true, decide_eq_true_eq, beq_iff_eq,
    List.mem_cons, List.not_mem_nil, or_false, exists_eq_or_imp, exists_eq_left]
  omega

/-- What a character beyond ASCII has as its lower case form is settled, and no white space. -/
theorem InRun.settled {run : Nat × Nat × Nat × Int} {n : Nat} (hrun : run ∈ lowerRuns) (h : InRun run n) :
    Settled (Char.ofNat (n + run.2.2.2).toNat) ∧ isBlank (Char.ofNat (n + run.2.2.2).toNat) = false := by
  have hlead : ∀ range ∈ blankRanges ++ capitalRanges,
      ¬ (range.1 ≤ imageFirst run + (n - run.1) ∧ imageFirst run + (n - run.1) ≤ range.2) :=
    fun range hrange => h.image_outside
      (List.all_eq_true.mp (List.all_eq_true.mp lowerRuns_lead run hrun) range hrange)
  have hlast : imageFirst run + (n - run.1) < 0x110000 := by
    have hstart := List.all_eq_true.mp lowerRuns_start run hrun
    simp only [Bool.and_eq_true, Nat.ble_eq, imageLast] at hstart
    have := h.2.1
    omega
  have hcapital : ∀ range ∈ capitalRanges, _ := fun range hrange =>
    hlead range (List.mem_append_right blankRanges hrange)
  simp only [capitalRanges, List.mem_cons, List.not_mem_nil, or_false, forall_eq_or_imp, forall_eq]
    at hcapital
  obtain ⟨hascii, hI, hS, hhalf⟩ := hcapital
  rw [h.image hrun]
  have hcode : (Char.ofNat (imageFirst run + (n - run.1))).toNat = imageFirst run + (n - run.1) :=
    toNat_ofNat (by omega)
  refine ⟨settled_of_shift ?_ ?_ ?_ ?_, ?_⟩
  · rwa [hcode]
  · rw [hcode]; omega
  · rw [hcode]; omega
  · rw [hcode]; exact h.image_settled hrun
  · rw [Bool.eq_false_iff, Ne, isBlank_iff, hcode]
    rintro ⟨range, hrange, hin⟩
    exact hlead range (List.mem_append_left capitalRanges hrange) hin

/-- What a capital letter of ASCII has as its lower case form is settled, and no white space. -/
theorem settled_ascii {n : Nat} (hlow : 65 ≤ n) (hhigh : n ≤ 90) :
    Settled (Char.ofNat (n + 32)) ∧ isBlank (Char.ofNat (n + 32)) = false := by
  have hcode : (Char.ofNat (n + 32)).toNat = n + 32 := toNat_ofNat (by omega)
  refine ⟨⟨by omega, ?_⟩, ?_⟩
  · unfold lowerChar
    dsimp only
    rw [if_pos (by omega), if_neg (by simp; omega)]
  · rw [Bool.eq_false_iff, Ne, isBlank_iff, hcode]
    simp [blankRanges]
    omega

/-- The lower case form of the capital I with a dot, the one form of two characters. -/
theorem settled_dotted : ∀ d ∈ ['i', Char.ofNat 0x307], Settled d ∧ isBlank d = false := by
  have hletter : Settled 'i' ∧ isBlank 'i' = false := by
    unfold Settled
    decide +kernel
  have hmark : Settled (Char.ofNat 0x307) ∧ isBlank (Char.ofNat 0x307) = false := by
    unfold Settled
    decide +kernel
  simpa using ⟨hletter, hmark⟩

theorem lowerChar_cases (c : Char) :
    lowerChar c = [c] ∨
    ((65 ≤ c.toNat ∧ c.toNat ≤ 90) ∧ lowerChar c = [Char.ofNat (c.toNat + 32)]) ∨
    lowerChar c = ['i', Char.ofNat 0x307] ∨
    ∃ run ∈ lowerRuns, InRun run c.toNat ∧ lowerChar c = [Char.ofNat (c.toNat + run.2.2.2).toNat] := by
  unfold lowerChar
  dsimp only
  split
  · split
    · rename_i hcapital
      exact .inr (.inl ⟨by simpa using hcapital, rfl⟩)
    · exact .inl rfl
  · split
    · exact .inr (.inr (.inl rfl))
    · rcases lowerShift_cases c.toNat with ⟨run, hrun, hin, hshift⟩ | hzero
      · rw [hshift]
        split
        · exact .inl rfl
        · exact .inr (.inr (.inr ⟨run, hrun, hin, rfl⟩))
      · rw [hzero]
        exact .inl rfl

/-- **Lower case forms.** A character in a lower case form is settled, and is white space only if the
form is that of white space. -/
theorem settled_of_mem_lowerChar {c d : Char} (hS : c.toNat ≠ 0x3A3) (hd : d ∈ lowerChar c) :
    Settled d ∧ (isBlank c = false → isBlank d = false) := by
  rcases lowerChar_cases c with hself | ⟨⟨hlow, hhigh⟩, hform⟩ | hform | ⟨run, hrun, hin, hform⟩
  · obtain rfl := List.mem_singleton.mp (hself ▸ hd)
    exact ⟨⟨hS, hself⟩, id⟩
  · obtain rfl := List.mem_singleton.mp (hform ▸ hd)
    exact ⟨(settled_ascii hlow hhigh).1, fun _ => (settled_ascii hlow hhigh).2⟩
  · rw [hform] at hd
    exact ⟨(settled_dotted d hd).1, fun _ => (settled_dotted d hd).2⟩
  · obtain rfl := List.mem_singleton.mp (hform ▸ hd)
    exact ⟨(InRun.settled hrun hin).1, fun _ => (InRun.settled hrun hin).2⟩

/-! ## Texts -/

/-- A letter that is its own lower case form wherever it stands. -/
def SettledLetter : Letter → Prop
  | .char c => Settled c
  | .half _ => True

theorem lowerLetter_of_settled {l : Letter} (h : SettledLetter l) (before after : List Letter) :
    lowerLetter before l after = [l] := by
  cases l with
  | half offset => rfl
  | char c =>
    obtain ⟨hS, hself⟩ := h
    simp [lowerLetter, hS, hself]

theorem lower_of_settled {ls : List Letter} (h : ∀ l ∈ ls, SettledLetter l) (before : List Letter) :
    lowerAfter before ls = ls := by
  induction ls generalizing before with
  | nil => rfl
  | cons l ls ih =>
    rw [lowerAfter, lowerLetter_of_settled (h l (by simp)), ih fun l' hl' => h l' (by simp [hl'])]
    rfl

theorem settled_lowerLetter {before after : List Letter} {l l' : Letter} (h : l' ∈ lowerLetter before l after) :
    SettledLetter l' ∧ (l.satisfies isBlank = false → l'.satisfies isBlank = false) := by
  unfold lowerLetter at h
  split at h
  · obtain rfl := List.mem_singleton.mp h
    exact ⟨trivial, id⟩
  · rename_i c
    split at h
    · have hsigma : ∀ n ∈ [0x3C2, 0x3C3], Settled (Char.ofNat n) ∧ isBlank (Char.ofNat n) = false := by
        unfold Settled
        decide +kernel
      obtain rfl := List.mem_singleton.mp h
      split
      · exact ⟨(hsigma 0x3C2 (by simp)).1, fun _ => (hsigma 0x3C2 (by simp)).2⟩
      · exact ⟨(hsigma 0x3C3 (by simp)).1, fun _ => (hsigma 0x3C3 (by simp)).2⟩
    · rename_i hS
      obtain ⟨d, hd, rfl⟩ := List.mem_map.mp h
      exact settled_of_mem_lowerChar (by simpa using hS) hd

theorem settled_lowerAfter {before ls : List Letter} {l : Letter} (h : l ∈ lowerAfter before ls) :
    SettledLetter l := by
  induction ls generalizing before with
  | nil => cases h
  | cons l' ls ih =>
    rw [lowerAfter, List.mem_append] at h
    rcases h with h | h
    · exact (settled_lowerLetter h).1
    · exact ih h

/-- **Lower case text is its own lower case form.** -/
theorem lower_lower (t : Text) : lower (lower t) = lower t := by
  unfold lower
  rw [lower_of_settled fun l hl => settled_lowerAfter hl]

/-! ## White space -/

theorem lowerAfter_ne_nil (before : List Letter) {ls : List Letter} (h : ls ≠ []) :
    lowerAfter before ls ≠ [] := by
  cases ls with
  | nil => exact absurd rfl h
  | cons l ls => simp [lowerAfter, lowerLetter_ne_nil]

/-- The ends of a lower case form are in the forms of the ends. -/
theorem Trimmed.lowerAfter {ls : List Letter} (h : Trimmed (Letter.satisfies isBlank) ls)
    (before : List Letter) : Trimmed (Letter.satisfies isBlank) (lowerAfter before ls) := by
  obtain ⟨hhead, hlast⟩ := h
  constructor
  · cases ls with
    | nil => simp [Text.lowerAfter]
    | cons l ls =>
      intro x hx
      rw [Text.lowerAfter, List.head?_append_of_ne_nil _ (lowerLetter_ne_nil _ _ _)] at hx
      exact (settled_lowerLetter (List.mem_of_mem_head? hx)).2 (hhead l rfl)
  · clear hhead
    induction ls generalizing before with
    | nil => simp [Text.lowerAfter]
    | cons l ls ih =>
      intro x hx
      rw [Text.lowerAfter] at hx
      cases ls with
      | nil =>
        rw [Text.lowerAfter, List.append_nil] at hx
        exact (settled_lowerLetter (List.mem_of_mem_getLast? hx)).2 (hlast l rfl)
      | cons l' ls =>
        rw [List.getLast?_append_of_ne_nil _ (lowerAfter_ne_nil _ (by simp))] at hx
        exact ih (l :: before) (by simpa using hlast) x hx

/-- **No white space comes in.** The lower case form of a trimmed text is trimmed. -/
theorem trim_lower_trim (t : Text) : trim (lower (trim t)) = lower (trim t) := by
  have h : Trimmed (Letter.satisfies isBlank) (trim t).letters := trimmed_trimBy _ _
  exact congrArg Text.mk (h.lowerAfter []).trimBy

end AssertionReplay.Text
