/-
What becomes of a failed execution.

The standard rules know a few messages of the host by their heads, and heads
that exclude each other need no order (`outcomeOf_eq_iff`). A message begins
with one of them only if the data of the execution lays out such a text
(`startsWith_iff_tellsFrom`), so everything else that makes an execution fail
is a violation (`failed_execution_judged`).
-/
import AssertionReplay.Proofs.Containment
import AssertionReplay.Proofs.Reasons

namespace AssertionReplay

theorem Text.startsWith_ofString_iff {s head : String} :
    (s : Text).startsWith head = true ↔ ∃ rest, s = head ++ rest := by
  have hletters : ∀ t : String, (ofString t).letters = t.toList.map .char := fun _ => rfl
  rw [Text.startsWith, List.isPrefixOf_iff_prefix, hletters, hletters,
    List.prefix_map_iff_of_injective fun _ _ => Letter.char.inj]
  constructor
  · intro h
    obtain ⟨rest, hrest⟩ := h
    exact ⟨String.ofList rest, String.toList_inj.mp (by simp [hrest])⟩
  · rintro ⟨rest, rfl⟩
    rw [String.toList_append]
    exact List.prefix_append _ _

/-! ## Rules -/

namespace Classifier

/-- No message begins with the heads of both. -/
def Apart (a b : Rule) : Prop := ¬ a.head.letters <+: b.head.letters ∧ ¬ b.head.letters <+: a.head.letters

instance (a b : Rule) : Decidable (Apart a b) := inferInstanceAs (Decidable (_ ∧ _))

variable {rules : List Rule} {rule : Rule} {message : Text} {outcome : Outcome}

theorem Apart.not_matches {a b : Rule} (h : Apart a b) (ha : ruleMatches a message = true) :
    ruleMatches b message = false := by
  rw [Bool.eq_false_iff]
  intro hb
  rw [ruleMatches, Text.startsWith, List.isPrefixOf_iff_prefix] at ha hb
  exact (List.prefix_or_prefix_of_prefix ha hb).elim h.1 h.2

theorem find?_of_apart (h : rules.Pairwise Apart) (hrule : rule ∈ rules) (hmatches : ruleMatches rule message = true) :
    rules.find? (ruleMatches · message) = some rule := by
  induction h with
  | nil => cases hrule
  | @cons a rules ha _ ih =>
    rcases List.mem_cons.mp hrule with rfl | hrule
    · exact List.find?_cons_of_pos hmatches
    · have hother : ruleMatches a message = false := by
        rw [Bool.eq_false_iff]
        intro hfirst
        rw [(ha rule hrule).not_matches hfirst] at hmatches
        cases hmatches
      rw [List.find?_cons_of_neg (by simp [hother])]
      exact ih hrule

/-- **With heads that exclude each other**, an outcome is that of a rule that matches. -/
theorem outcomeOf_eq_iff (h : rules.Pairwise Apart) (hne : outcome ≠ .assertionFailed) :
    outcomeOf rules message = outcome ↔ ∃ rule ∈ rules, rule.outcome = outcome ∧ ruleMatches rule message = true := by
  unfold outcomeOf
  constructor
  · intro houtcome
    split at houtcome
    · rename_i rule hfound
      exact ⟨rule, List.mem_of_find?_eq_some hfound, houtcome, List.find?_some (p := (ruleMatches · message)) hfound⟩
    · exact absurd houtcome.symm hne
  · intro hmatching
    obtain ⟨rule, hrule, houtcome, hmatches⟩ := hmatching
    rw [find?_of_apart h hrule hmatches]
    exact houtcome

/-- A message that no rule knows is a violation, and if no rule says so, no other is. -/
theorem outcomeOf_eq_assertionFailed_iff (h : ∀ rule ∈ rules, rule.outcome ≠ .assertionFailed) :
    outcomeOf rules message = .assertionFailed ↔ ∀ rule ∈ rules, ¬ ruleMatches rule message = true := by
  unfold outcomeOf
  constructor
  · intro houtcome
    split at houtcome
    · rename_i rule hfound
      exact absurd houtcome (h rule (List.mem_of_find?_eq_some hfound))
    · rename_i hnone
      exact fun rule hrule => List.find?_eq_none.mp hnone rule hrule
  · intro hnone
    rw [List.find?_eq_none.mpr hnone]

theorem apart_defaultRules : defaultRules.Pairwise Apart := by decide

end Classifier

/-! ## Messages -/

/-- The data is an error whose text begins so. -/
def Revert.TellsFrom (data : Bytes) (head : String) : Prop := ∃ rest, Tells data (head ++ rest)

/-- No reason that the reader makes up begins with the head, or is the beginning of it. -/
def Revert.Foreign (head : String) : Prop :=
  ∀ own ∈ ownHeads, ¬ own.toList <+: head.toList ∧ ¬ head.toList <+: own.toList

/-- **A reason begins with such a head exactly if the data lays out a text that does.** -/
theorem Revert.startsWith_iff_tellsFrom {data : Bytes} {text head : String} (h : reason data = .ok text)
    (hforeign : Foreign head) : (text : Text).startsWith head = true ↔ TellsFrom data head := by
  rw [Text.startsWith_ofString_iff]
  constructor
  · intro hstarts
    obtain ⟨rest, rfl⟩ := hstarts
    rcases reason_ok_cases h with htells | ⟨-, own, hown, rest', hsame⟩
    · exact ⟨rest, htells⟩
    · have hprefix : own.toList <+: (head ++ rest).toList := by
        rw [hsame, String.toList_append]
        exact List.prefix_append _ _
      rw [String.toList_append] at hprefix
      rcases List.prefix_or_prefix_of_prefix hprefix (List.prefix_append _ _) with hlong | hlong
      · exact absurd hlong (hforeign own hown).1
      · exact absurd hlong (hforeign own hown).2
  · intro htells
    obtain ⟨rest, htells⟩ := htells
    exact ⟨rest, htells.reason h⟩

theorem Classifier.foreign_defaultRules : Revert.Foreign "Mock Transaction Reverted:" ∧
    Revert.Foreign "Assertion Executor Error: ForkTxExecutionError" ∧
    Revert.Foreign "Expected 1 assertion to be executed, but 0" := by
  unfold Revert.Foreign
  decide

namespace Replay

open Revert

variable {o : Outside} {c : Config} {r : Record}

/-- **A failed execution is a violation unless the host says otherwise.** If its reason can be read, the
record gets a verdict with that reason as its message. It counts as a failed or a skipped replay exactly
if the data is an error that lays out one of the host's own messages, and as a violation in every other
case; it is never a success, and never an unknown error. -/
theorem failed_execution_judged {j j' : Journal} {result : CallResult} {text : String}
    (hpass : assertedPass c r o j = (.ok result, j')) (hfailed : result.success = false)
    (hreason : reason result.data = .ok text) :
    ∃ outcome, (validate c .standard r o j).1 = .ok ⟨outcome, text⟩ ∧
      (outcome = .replayFailure ↔ TellsFrom result.data "Mock Transaction Reverted:" ∨
        TellsFrom result.data "Assertion Executor Error: ForkTxExecutionError") ∧
      (outcome = .skipped ↔ TellsFrom result.data "Expected 1 assertion to be executed, but 0") ∧
      (outcome = .assertionFailed ↔ ¬ TellsFrom result.data "Mock Transaction Reverted:" ∧
        ¬ TellsFrom result.data "Assertion Executor Error: ForkTxExecutionError" ∧
        ¬ TellsFrom result.data "Expected 1 assertion to be executed, but 0") ∧
      outcome ≠ .success ∧ outcome ≠ .unknownError := by
  have hmessage : messageOf result = .ok (text : Text) := by
    rw [messageOf, if_neg (by simp [hfailed]), hreason]
    rfl
  obtain ⟨hmock, hfork, hnone⟩ := Classifier.foreign_defaultRules
  have hmatches : ∀ {head outcome}, Foreign head →
      (Classifier.ruleMatches ⟨head, outcome⟩ (text : Text) = true ↔ TellsFrom result.data head) :=
    startsWith_iff_tellsFrom hreason
  have hiff : ∀ {outcome}, outcome ≠ .assertionFailed →
      (Classifier.outcomeOf Classifier.defaultRules (text : Text) = outcome ↔
        ∃ rule ∈ Classifier.defaultRules, rule.outcome = outcome ∧ Classifier.ruleMatches rule (text : Text) = true) :=
    Classifier.outcomeOf_eq_iff Classifier.apart_defaultRules
  refine ⟨Classifier.outcomeOf Classifier.defaultRules (text : Text), ?_, ?_, ?_, ?_, ?_, ?_⟩
  · rw [validate_value, hpass, verdictOn, hmessage, hfailed]
    rfl
  · rw [hiff (by decide)]
    simp [Classifier.defaultRules, hmatches hmock, hmatches hfork]
  · rw [hiff (by decide)]
    simp [Classifier.defaultRules, hmatches hnone]
  · rw [Classifier.outcomeOf_eq_assertionFailed_iff (by decide), Classifier.defaultRules, List.forall_mem_cons,
      List.forall_mem_cons, List.forall_mem_singleton, hmatches hmock, hmatches hfork, hmatches hnone]
  · exact Classifier.outcomeOf_ne (by decide) (by decide) _
  · exact Classifier.outcomeOf_ne (by decide) (by decide) _

/-- The host's word that no assertion was there to be executed, with bytes between head and tail. -/
def idleData : Bytes :=
  errorSelector ++ (Abi.encodeWord 33 ++ ([7] ++
    (Abi.encodeTail (Abi.utf8 "Expected 1 assertion to be executed, but 0 were") ++ [1])))

/-- Answers every call, and everything it executes fails with these data. -/
def idleHost : Outside :=
  { willingHost with
    host := fun past call =>
      match call with
      | .execute _ => .ok (⟨false, idleData⟩ : CallResult)
      | call => willingHost.host past call }

theorem tells_idleData : Tells idleData "Expected 1 assertion to be executed, but 0 were" :=
  ⟨_, rfl, [7], [1], rfl, by decide, by decide⟩

/-- The record counts as skipped. -/
theorem failed_execution_judged_idle :
    (assertedPass noArguments plainRecord idleHost []).1 = .ok ⟨false, idleData⟩ ∧
      reason idleData = .ok "Expected 1 assertion to be executed, but 0 were" ∧
      (validate noArguments .standard plainRecord idleHost []).1 =
        .ok ⟨.skipped, "Expected 1 assertion to be executed, but 0 were"⟩ := by
  have hpass : (assertedPass noArguments plainRecord idleHost []).1 = .ok ⟨false, idleData⟩ := rfl
  obtain ⟨body, hdata, hlays⟩ := tells_idleData
  have hreason : reason idleData = .ok "Expected 1 assertion to be executed, but 0 were" := by
    rw [hdata]
    exact reason_of_laysOut hlays (by decide)
  obtain ⟨outcome, hvalidate, -, hskipped, -⟩ := failed_execution_judged (Prod.ext hpass rfl) rfl hreason
  refine ⟨hpass, hreason, ?_⟩
  rw [hvalidate, hskipped.mpr ⟨" were", tells_idleData⟩]

end Replay
end AssertionReplay
