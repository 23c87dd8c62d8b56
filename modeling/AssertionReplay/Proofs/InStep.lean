/-
Runs that an assertion host cannot tell apart.

What the host answers depends on the calls it was asked before and on nothing
else. So two actions that make the same calls of the same host go on in step
(`Act.InStep`), whatever else their journals hold: the same calls follow, and
they end in the same way. Replays are settled by the answers to their calls,
so they are in step with themselves (`replayAll_inStep`). A run that fetches
its records is in step with one that is given them, since its fetch is unseen
(`run_inStep`).
-/
import AssertionReplay.Proofs.Accounting
import AssertionReplay.Proofs.Answers
import AssertionReplay.Proofs.Indistinguishability
import AssertionReplay.Proofs.Unseen

namespace AssertionReplay

open Text

namespace Act

/-- From journals with the same calls of the host, the actions end in the same way, and with the same
calls. -/
def InStep (o o' : Outside) (x y : Act α) : Prop :=
  ∀ j j' : Journal, j.hostCalls = j'.hostCalls →
    (x o j).1 = (y o' j').1 ∧ (x o j).2.hostCalls = (y o' j').2.hostCalls

variable {o o' : Outside} {x y : Act α}

/-- Going in step is to look the same to the host. -/
theorem inStep_iff_inView : InStep o o' x y ↔ InView Journal.hostCalls o o' x y := .rfl

theorem InStep.pure {a : α} : InStep o o' (Pure.pure a) (Pure.pure a) := inStep_iff_inView.mpr .pure

theorem InStep.lift {r : Except Fault α} : InStep o o' (liftM r) (liftM r) := inStep_iff_inView.mpr .lift

theorem InStep.logWritten {level : Level} {cause? : Option Fault} {text : Except Fault Text} :
    InStep o o' (Act.logWritten level cause? text) (Act.logWritten level cause? text) := by
  cases text with
  | ok text =>
    exact inStep_iff_inView.mpr <| .record fun j j' h => by
      rw [Journal.hostCalls_append, Journal.hostCalls_append, h]
  | error e => exact .pure

theorem InStep.log {level : Level} {text : Text} : InStep o o' (Act.log level text) (Act.log level text) := by
  rw [log_eq_logWritten]
  exact .logWritten

theorem ByAnswers.inStep (hx : ByAnswers x) (h : o.host = o'.host) : InStep o o' x x := by
  intro j j' hcalls
  obtain ⟨calls, hmade, hsettled⟩ := hx o j
  have hsame : o'.exchanges j.hostCalls calls = o.exchanges j.hostCalls calls :=
    Outside.exchanges_congr fun _ _ _ _ => by rw [h]
  obtain ⟨hend, hmade'⟩ := hsettled o' j' hcalls.symm hsame
  exact ⟨hend.symm, hmade.trans hmade'.symm⟩

theorem InStep.bind {f g : α → Act β} (hx : InStep o o' x y) (hf : ∀ a, InStep o o' (f a) (g a)) :
    InStep o o' (x >>= f) (y >>= g) := inStep_iff_inView.mpr (InView.bind hx hf)

/-- What is unseen can be left out, if it always returns the same. -/
theorem InStep.of_unseen {a : α} (hx : Unseen x) (h : Ensures o x (· = a)) : InStep o o' x (Pure.pure a) := by
  intro j j' hcalls
  obtain ⟨_, hend, rfl⟩ := h j
  exact ⟨hend, (hx.hostCalls o j).trans hcalls⟩

end Act

open Act

/-! ## Runs -/

variable {o o' : Outside} (h : o.host = o'.host)

include h

namespace Backtest

variable (c : Config) (classify : Classifier)

/-- **Replays** of the same records with the same host go in step. -/
theorem replayAll_inStep (total position : Nat) (tally : Tally) (rs : List Record) :
    InStep o o' (replayAll c classify total position tally rs) (replayAll c classify total position tally rs) := by
  induction rs generalizing position tally with
  | nil => exact .pure
  | cons r rs ih =>
    unfold replayAll
    refine ((Replay.validate_byAnswers c r classify).inStep h).bind fun verdict => InStep.lift.bind fun line => ?_
    exact InStep.log.bind fun _ => ih _ _

omit h in
theorem logSummary_inStep (t : Tally) : InStep o o' t.logSummary t.logSummary := by
  have hlines : ∀ lines : List Text, InStep o o'
      (Act.forEach lines fun line => Act.log (Tally.lineLevel line) line)
      (Act.forEach lines fun line => Act.log (Tally.lineLevel line) line) := by
    intro lines
    induction lines with
    | nil => exact .pure
    | cons line lines ih => exact InStep.log.bind fun _ => ih
  exact InStep.lift.bind fun lines => hlines lines

/-- **Runs** go in step if the records that they replay are the same, and had unseen. -/
theorem run_inStep {records? records'? : Option (List Record)}
    (hrecords : InStep o o' (recordsOf c records?) (recordsOf c records'?)) :
    InStep o o' (run c classify records?) (run c classify records'?) := by
  rw [run_eq, run_eq]
  refine InStep.lift.bind fun start => InStep.logWritten.bind fun _ => hrecords.bind fun rs => ?_
  refine (replayAll_inStep h c classify _ _ _ rs).bind fun tally => ?_
  exact (logSummary_inStep tally).bind fun _ => .pure

end Backtest
end AssertionReplay
