/-
What the replay of a transaction came to.

The host tells why an execution failed by the head of a message only, so a
table of heads decides; a message that no rule knows is a violation.
-/
import AssertionReplay.Journal

namespace AssertionReplay

inductive Outcome where
  | success
  | skipped
  | replayFailure
  | assertionFailed
  | unknownError
  deriving DecidableEq

namespace Outcome

def name : Outcome → String
  | success => "success"
  | skipped => "skipped"
  | replayFailure => "replay_failure"
  | assertionFailed => "assertion_failed"
  | unknownError => "unknown_error"

/-- The name in capitals. -/
def label : Outcome → String
  | success => "SUCCESS"
  | skipped => "SKIPPED"
  | replayFailure => "REPLAY_FAILURE"
  | assertionFailed => "ASSERTION_FAILED"
  | unknownError => "UNKNOWN_ERROR"

end Outcome

structure Verdict where
  outcome : Outcome
  message : Text
  deriving DecidableEq

/-- Whether the assertion was violated. -/
def Verdict.isViolation (v : Verdict) : Bool :=
  v.outcome == .assertionFailed

/-- Messages with this head have this outcome. -/
structure Rule where
  head : Text
  outcome : Outcome

/-- Decides from the success of an execution and its message. -/
abbrev Classifier := Bool → Text → Verdict

namespace Classifier

/-- The heads of the host's own messages. -/
def defaultRules : List Rule :=
  [⟨"Mock Transaction Reverted:", .replayFailure⟩,
    ⟨"Assertion Executor Error: ForkTxExecutionError", .replayFailure⟩,
    ⟨"Expected 1 assertion to be executed, but 0", .skipped⟩]

def ruleMatches (rule : Rule) (message : Text) : Bool :=
  message.startsWith rule.head

/-- The outcome of a failed execution: by the first rule that matches, else a violation. -/
def outcomeOf (rules : List Rule) (message : Text) : Outcome :=
  match rules.find? (ruleMatches · message) with
  | some rule => rule.outcome
  | none => .assertionFailed

def ofRules (rules : List Rule) : Classifier := fun success message =>
  if success then ⟨.success, ""⟩ else ⟨outcomeOf rules message, message⟩

def standard : Classifier := ofRules defaultRules

end Classifier
end AssertionReplay
