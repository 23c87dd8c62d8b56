/-
The counters of a run, and the report made of them.

Every verdict raises the count of processed transactions and the counter of
its outcome, and a violation adds its hash to the list.
-/
import AssertionReplay.Verdict

namespace AssertionReplay

open Text

structure Tally where
  total : Int := 0
  processed : Int := 0
  successful : Int := 0
  skipped : Int := 0
  assertionFailures : Int := 0
  replayFailures : Int := 0
  unknownErrors : Int := 0
  /-- The hashes of the transactions that violated the assertion, in the order of the replay. -/
  violations : List Text := []
  deriving DecidableEq

namespace Tally

/-- Raises the counter of an outcome. -/
def count (t : Tally) : Outcome → Tally
  | .success => { t with successful := t.successful + 1 }
  | .skipped => { t with skipped := t.skipped + 1 }
  | .assertionFailed => { t with assertionFailures := t.assertionFailures + 1 }
  | .replayFailure => { t with replayFailures := t.replayFailures + 1 }
  | .unknownError => { t with unknownErrors := t.unknownErrors + 1 }

def add (t : Tally) (r : Record) (v : Verdict) : Tally :=
  let t := { t with processed := t.processed + 1 }.count v.outcome
  if v.isViolation then { t with violations := t.violations ++ [r.hash] } else t

/-- Whether every processed transaction is in one category. -/
def isConsistent (t : Tally) : Bool :=
  t.processed ==
    t.successful + t.skipped + t.assertionFailures + t.replayFailures + t.unknownErrors

/-- How many transactions were not skipped. -/
def counted (t : Tally) : Int :=
  t.successful + t.assertionFailures + t.replayFailures + t.unknownErrors

/-- The percentage of the transactions not skipped that validated; zero if there are none. -/
def successRate (t : Tally) : Except Fault Binary64 :=
  if t.counted == 0 then .ok .zero
  else
    let n := t.successful * 100
    match Binary64.ofRatio ((n < 0) != (t.counted < 0)) n.natAbs t.counted.natAbs with
    | .infinite _ => .error .outOfRange
    | rate => .ok rate

/-- The lines of the report. -/
def summary (t : Tally) : Except Fault (List Text) := do
  let rate ← t.successRate
  let counts : List Text := [
    "=== BACKTESTING SUMMARY ===",
    "Total transactions:     " ++ decimal t.total,
    "Processed:              " ++ decimal t.processed,
    "Successful validations: " ++ decimal t.successful,
    "Skipped (not triggered): " ++ decimal t.skipped,
    "Replay failures:        " ++ decimal t.replayFailures,
    "Unknown errors:         " ++ decimal t.unknownErrors,
    "Assertion failures:     " ++ decimal t.assertionFailures,
    "Success rate:           " ++ rate.fixed 2 ++ "% (skipped excluded)"]
  let violations :=
    if 0 < t.assertionFailures then
      ("!!! PROTOCOL VIOLATIONS DETECTED: " ++ decimal t.assertionFailures ++
        " transaction(s) failed the assertion !!!" : Text) :: t.violations.map fun hash =>
          "!!!   " ++ hash
    else ["No protocol violations detected."]
  return counts ++ violations

/-- The level of a line of the report: the lines about violations start with three marks. -/
def lineLevel (line : Text) : Level :=
  if line.startsWith "!!!" then .error else .info

def logSummary (t : Tally) : Act Unit := do
  Act.forEach (← t.summary) fun line => Act.log (lineLevel line) line

end Tally

namespace Verdict

/-- A number in a report line. -/
def numberText (q : Quantity) : Except Fault String :=
  match q.text? with
  | some s => .ok s
  | none => .error (.value .unreadable)

/-- The line about one transaction. -/
def describe (r : Record) (v : Verdict) : Except Fault Text := do
  let block ← numberText r.block
  let index ← numberText r.index
  let line := "[" ++ v.outcome.label ++ "] block " ++ block ++ " idx " ++ index ++ " " ++ r.hash
  return if v.message.isEmpty then line else line ++ ": " ++ v.message

end Verdict
end AssertionReplay
