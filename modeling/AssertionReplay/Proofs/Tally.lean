/-
The counters of a run, and that a report can always be made of them.

Judgements are added one after another (`Tally.addAll`). Each raises the
counter of its outcome by one and, if it is a violation, adds a hash to the
list (`counted_addAll`), so every processed transaction stays in one category,
and the order of the judgements does not show in the counters.

No counter is ever below zero (`Tally.Sound`), so the share of the successful
transactions is at most one, and its percentage is a binary64 number
(`Sound.summary`). Of the lines of a report, those about violations are
errors: one, and one for each of them (`errors_summary`).
-/
import AssertionReplay.Tally
import Mathlib.Algebra.Group.Nat.Defs
import Mathlib.Data.List.Perm.Basic

namespace AssertionReplay

namespace Binary64

theorem exponentFor_le (n d : Nat) : exponentFor n d ≤ max minExponent ((n.log2 : Int) - d.log2 - 52) := by
  unfold exponentFor
  -- The numbers are hidden, since the steps below would compute with them.
  generalize (n.log2 : Int) - d.log2 - 52 = guess
  generalize minExponent = least
  generalize Nat.pow 2 52 = unit
  dsimp only
  split <;> omega

/-- Rounding up raises the exponent by at most one. -/
theorem ofRatio_ne_infinite_of_lt {n d : Nat} (negative s : Bool) (h : exponentFor n d < maxExponent) :
    ofRatio negative n d ≠ infinite s := by
  have hround : ∀ (rounded : Nat × Int) (greatest : Int), rounded.2 ≤ greatest →
      (if greatest < rounded.2 then infinite negative else finite negative rounded.1 rounded.2) ≠ infinite s := by
    intro rounded greatest hle
    rw [if_neg (by omega)]
    simp
  unfold ofRatio
  generalize exponentFor n d = e at h
  generalize maxExponent = greatest at h
  generalize Nat.pow 2 53 = bound
  generalize Nat.pow 2 52 = unit
  split
  · simp
  · extract_lets e'
    rcases scaledRatio n d e' with ⟨a, b⟩
    refine hround (if (divHalfEven a b == bound) = true then (unit, e + 1) else (divHalfEven a b, e)) greatest ?_
    split <;> dsimp only <;> omega

/-- A quotient that is far below the greatest number is rounded to a number. -/
theorem ofRatio_ne_infinite {n d k : Nat} (negative s : Bool) (h : n ≤ 2 ^ k * d) (hk : k ≤ 1000) :
    ofRatio negative n d ≠ infinite s := by
  rcases Nat.eq_zero_or_pos n with rfl | hn
  · exact fun h => by cases h
  have hlog : n.log2 < d.log2 + k + 1 := by
    refine (Nat.log2_lt (by omega)).mpr (Nat.lt_of_le_of_lt h ?_)
    calc 2 ^ k * d < 2 ^ k * 2 ^ (d.log2 + 1) := Nat.mul_lt_mul_of_pos_left Nat.lt_log2_self (Nat.two_pow_pos k)
      _ = 2 ^ (d.log2 + k + 1) := by rw [← Nat.pow_add]; congr 1; omega
  refine ofRatio_ne_infinite_of_lt negative s (Int.lt_of_le_of_lt (exponentFor_le n d) ?_)
  have hmin : minExponent = -1074 := rfl
  have hmax : maxExponent = 971 := rfl
  omega

end Binary64

namespace Tally

variable {t : Tally}

/-- The counters that make the percentage are counts. -/
structure Sound (t : Tally) : Prop where
  successful : 0 ≤ t.successful
  assertionFailures : 0 ≤ t.assertionFailures
  replayFailures : 0 ≤ t.replayFailures
  unknownErrors : 0 ≤ t.unknownErrors

theorem sound_new (total : Int) : Sound { total } := ⟨Int.le_refl 0, Int.le_refl 0, Int.le_refl 0, Int.le_refl 0⟩

@[simp] theorem add_total (t : Tally) (r : Record) (v : Verdict) : (t.add r v).total = t.total := by
  rcases v with ⟨outcome, message⟩
  cases outcome <;> rfl

@[simp] theorem add_processed (t : Tally) (r : Record) (v : Verdict) : (t.add r v).processed = t.processed + 1 := by
  rcases v with ⟨outcome, message⟩
  cases outcome <;> rfl

theorem Sound.add (h : t.Sound) (r : Record) (v : Verdict) : (t.add r v).Sound := by
  obtain ⟨hs, ha, hr, hu⟩ := h
  have hup : ∀ {n : Int}, 0 ≤ n → 0 ≤ n + 1 := fun h => by omega
  rcases v with ⟨outcome, message⟩
  cases outcome with
  | success => exact ⟨hup hs, ha, hr, hu⟩
  | skipped => exact ⟨hs, ha, hr, hu⟩
  | replayFailure => exact ⟨hs, ha, hup hr, hu⟩
  | assertionFailed => exact ⟨hs, hup ha, hr, hu⟩
  | unknownError => exact ⟨hs, ha, hr, hup hu⟩

/-- The percentage is at most a hundred, so it is a number. -/
theorem Sound.successRate (h : t.Sound) : ∃ rate, t.successRate = .ok rate := by
  obtain ⟨hs, ha, hr, hu⟩ := h
  have hratio : (t.successful * 100).natAbs ≤ 2 ^ 7 * t.counted.natAbs := by
    unfold Tally.counted
    omega
  unfold Tally.successRate
  split
  · exact ⟨_, rfl⟩
  · dsimp only
    split
    · rename_i hinfinite
      exact absurd hinfinite (Binary64.ofRatio_ne_infinite _ _ hratio (by decide))
    · exact ⟨_, rfl⟩

theorem Sound.summary (h : t.Sound) : ∃ lines, t.summary = .ok lines := by
  obtain ⟨rate, hrate⟩ := h.successRate
  unfold Tally.summary
  rw [hrate]
  exact ⟨_, rfl⟩

/-! ## Judgements -/

/-- The counter of an outcome. -/
def counter (t : Tally) : Outcome → Int
  | .success => t.successful
  | .skipped => t.skipped
  | .assertionFailed => t.assertionFailures
  | .replayFailure => t.replayFailures
  | .unknownError => t.unknownErrors

theorem isConsistent_iff : t.isConsistent = true ↔ t.processed =
    t.counter .success + t.counter .skipped + t.counter .assertionFailed + t.counter .replayFailure +
      t.counter .unknownError :=
  beq_iff_eq

theorem counter_add (t : Tally) (r : Record) (v : Verdict) (outcome : Outcome) :
    (t.add r v).counter outcome = t.counter outcome + if v.outcome = outcome then 1 else 0 := by
  rcases v with ⟨raised, message⟩
  cases raised <;> cases outcome <;> simp [add, count, counter, Verdict.isViolation]

theorem violations_add (t : Tally) (r : Record) (v : Verdict) :
    (t.add r v).violations = t.violations ++ if v.isViolation then [r.hash] else [] := by
  rcases v with ⟨outcome, message⟩
  cases outcome <;> simp [add, count, Verdict.isViolation]

/-- **Every processed transaction stays in one category.** -/
theorem isConsistent_add (h : t.isConsistent = true) (r : Record) (v : Verdict) :
    (t.add r v).isConsistent = true := by
  rw [isConsistent_iff] at h ⊢
  simp only [counter_add, add_processed, h]
  cases v.outcome
  all_goals
    simp
    omega

/-- Adds the verdicts on records one after another. -/
def addAll (t : Tally) (judged : List (Record × Verdict)) : Tally :=
  judged.foldl (fun t p => t.add p.1 p.2) t

/-- The second tally is the first one with the judgements counted. -/
structure Counted (t : Tally) (judged : List (Record × Verdict)) (t' : Tally) : Prop where
  total : t'.total = t.total
  processed : t'.processed = t.processed + judged.length
  counter : ∀ outcome, t'.counter outcome = t.counter outcome + judged.countP (·.2.outcome == outcome)
  violations : t'.violations = t.violations ++ (judged.filter (·.2.isViolation)).map (·.1.hash)
  consistent : t.isConsistent = true → t'.isConsistent = true

/-- **What a tally counts.** -/
theorem counted_addAll (t : Tally) (judged : List (Record × Verdict)) : Counted t judged (t.addAll judged) := by
  induction judged generalizing t with
  | nil => exact ⟨rfl, by simp [addAll], by simp [addAll], by simp [addAll], id⟩
  | cons p judged ih =>
    obtain ⟨r, v⟩ := p
    have ih : Counted (t.add r v) judged (t.addAll ((r, v) :: judged)) := ih (t.add r v)
    refine ⟨by rw [ih.total, add_total], ?_, fun outcome => ?_, ?_, fun h => ih.consistent (isConsistent_add h r v)⟩
    · rw [ih.processed, add_processed, List.length_cons]
      omega
    · rw [ih.counter, counter_add, List.countP_cons]
      by_cases h : v.outcome = outcome
      · simp [h]
        omega
      · simp [h]
    · rw [ih.violations, violations_add, List.filter_cons]
      split <;> simp

theorem Counted.length_violations {judged : List (Record × Verdict)} {t' : Tally} (h : Counted t judged t')
    (ht : (t.violations.length : Int) = t.assertionFailures) : (t'.violations.length : Int) = t'.assertionFailures := by
  have hcounter : t'.assertionFailures = t.assertionFailures + judged.countP (·.2.isViolation) :=
    h.counter .assertionFailed
  rw [hcounter, h.violations, List.length_append, List.length_map, ← List.countP_eq_length_filter]
  omega

/-- **The order of the judgements does not show in the counters.** -/
theorem counted_of_perm {judged judged' : List (Record × Verdict)} (h : judged.Perm judged') {t₁ t₂ : Tally}
    (h₁ : Counted t judged t₁) (h₂ : Counted t judged' t₂) :
    t₁.total = t₂.total ∧ t₁.processed = t₂.processed ∧ t₁.counter = t₂.counter ∧
      t₁.violations.Perm t₂.violations := by
  refine ⟨by rw [h₁.total, h₂.total], by rw [h₁.processed, h₂.processed, h.length_eq], ?_, ?_⟩
  · funext outcome
    rw [h₁.counter, h₂.counter, h.countP_eq]
  · rw [h₁.violations, h₂.violations]
    exact ((h.filter _).map _).append_left _

/-! ## The lines of a report -/

/-- **The lines that are errors:** one about the violations, if there are any, and one for each. -/
theorem errors_summary {lines : List Text} (h : t.summary = .ok lines) :
    lines.countP (lineLevel · == .error) = if 0 < t.assertionFailures then 1 + t.violations.length else 0 := by
  unfold summary at h
  rcases hrate : t.successRate with e | rate <;> rw [hrate] at h
  · cases h
  · obtain rfl := Except.ok.inj h
    rw [List.countP_append]
    have hcounts : ∀ lines : List Text, (∀ line ∈ lines, line.startsWith "!!!" = false) →
        lines.countP (lineLevel · == .error) = 0 := by
      intro lines hlines
      rw [List.countP_eq_zero]
      intro line hline
      rw [lineLevel, hlines line hline]
      decide
    have hviolations : ∀ lines : List Text, (∀ line ∈ lines, line.startsWith "!!!" = true) →
        lines.countP (lineLevel · == .error) = lines.length := by
      intro lines hlines
      rw [List.countP_eq_length]
      intro line hline
      rw [lineLevel, hlines line hline]
      decide
    rw [hcounts _ ?_, Nat.zero_add]
    · split
      · rw [hviolations _ ?_, List.length_cons, List.length_map, Nat.add_comm]
        simp only [List.mem_cons, List.mem_map, forall_eq_or_imp, forall_exists_index, and_imp,
          forall_apply_eq_imp_iff₂]
        exact ⟨rfl, fun _ _ => rfl⟩
      · exact hcounts _ (by simp; rfl)
    · simp only [List.mem_cons, List.not_mem_nil, or_false, forall_eq_or_imp, forall_eq]
      exact ⟨rfl, rfl, rfl, rfl, rfl, rfl, rfl, rfl, rfl⟩

end Tally
end AssertionReplay
