/-
Actions that learn nothing from outside but what the assertion host answers.

What such an action calls, and how it ends, is the same for all hosts that
give the same answers to its calls (`Act.ByAnswers`). Everything that a replay
does is of this kind (`validate_byAnswers`): the rest of its journal, and what
the host would answer to other calls, make no difference.
-/
import AssertionReplay.Proofs.HostCalls
import AssertionReplay.Replay

namespace AssertionReplay

namespace Act

/-- The calls that the action makes of the host, and how it ends, are settled by the answers to these
calls. -/
def ByAnswers (x : Act α) : Prop :=
  ∀ o j, ∃ calls, (x o j).2.hostCalls = j.hostCalls ++ calls ∧
    ∀ (o' : Outside) (j' : Journal), j'.hostCalls = j.hostCalls →
      o'.exchanges j.hostCalls calls = o.exchanges j.hostCalls calls →
      (x o' j').1 = (x o j).1 ∧ (x o' j').2.hostCalls = j.hostCalls ++ calls

variable {x : Act α}

theorem ByAnswers.pure {a : α} : ByAnswers (Pure.pure a : Act α) :=
  fun _ _ => ⟨[], (List.append_nil _).symm, fun _ _ hpast _ => ⟨rfl, hpast.trans (List.append_nil _).symm⟩⟩

theorem ByAnswers.lift {r : Except Fault α} : ByAnswers (liftM r : Act α) := by
  intro o j
  refine ⟨[], by rw [lift_apply, List.append_nil], fun o' j' hpast _ => ?_⟩
  rw [lift_apply, lift_apply, List.append_nil]
  exact ⟨rfl, hpast⟩

theorem ByAnswers.record {e : Event} (he : Journal.hostCalls [e] = []) : ByAnswers (Act.record e) := by
  have hcalls : ∀ (o : Outside) (j : Journal), (Act.record e o j).2.hostCalls = j.hostCalls ++ [] := by
    intro o j
    show Journal.hostCalls (j ++ [e]) = _
    rw [Journal.hostCalls_append, he]
  exact fun o j => ⟨[], hcalls o j, fun o' j' hpast _ => ⟨rfl, by rw [hcalls, hpast]⟩⟩

theorem ByAnswers.log {level : Level} {text : Text} : ByAnswers (Act.log level text) := .record rfl

theorem ByAnswers.logFault {level : Level} {text : Text} {cause : Fault} : ByAnswers (Act.logFault level text cause) :=
  .record rfl

theorem ByAnswers.host (call : HostCall) : ByAnswers (Act.host call) := by
  have hcalls : ∀ (o : Outside) (j : Journal), (Act.host call o j).2.hostCalls = j.hostCalls ++ [call] :=
    fun _ _ => Journal.hostCalls_append _ _
  refine fun o j => ⟨[call], hcalls o j, fun o' j' hpast hsame => ⟨?_, by rw [hcalls, hpast]⟩⟩
  show o'.host j'.hostCalls call = o.host j.hostCalls call
  simpa [Outside.exchanges, hpast] using hsame

/-- The second action starts with a value that the answers to the first one settle. -/
theorem ByAnswers.bind {f : α → Act β} (hx : ByAnswers x) (hf : ∀ a, ByAnswers (f a)) : ByAnswers (x >>= f) := by
  intro o j
  obtain ⟨calls, hcalls, hsettled⟩ := hx o j
  rcases hrun : x o j with ⟨e | a, j₁⟩ <;> rw [hrun] at hcalls hsettled
  · refine ⟨calls, by rw [bind_apply_of_error hrun]; exact hcalls, fun o' j' hpast hsame => ?_⟩
    obtain ⟨hend, hcalls'⟩ := hsettled o' j' hpast hsame
    rcases hrun' : x o' j' with ⟨r', j₁'⟩
    rw [hrun'] at hend hcalls'
    cases hend
    rw [bind_apply_of_error hrun', bind_apply_of_error hrun]
    exact ⟨rfl, hcalls'⟩
  · obtain ⟨more, hmore, hsettled'⟩ := hf a o j₁
    have hcalls₁ : j₁.hostCalls = j.hostCalls ++ calls := hcalls
    rw [hcalls₁] at hmore hsettled'
    refine ⟨calls ++ more, by rw [bind_apply_of_ok hrun, hmore, List.append_assoc], fun o' j' hpast hsame => ?_⟩
    obtain ⟨hsame₁, hsame₂⟩ := Outside.exchanges_append_inj hsame
    obtain ⟨hend, hcalls'⟩ := hsettled o' j' hpast hsame₁
    rcases hrun' : x o' j' with ⟨r', j₁'⟩
    rw [hrun'] at hend hcalls'
    cases hend
    rw [bind_apply_of_ok hrun', bind_apply_of_ok hrun, ← List.append_assoc]
    exact hsettled' o' j₁' hcalls' hsame₂

theorem ByAnswers.attempt (h : ByAnswers x) : ByAnswers x.attempt := by
  intro o j
  obtain ⟨calls, hcalls, hsettled⟩ := h o j
  refine ⟨calls, hcalls, fun o' j' hpast hsame => ?_⟩
  obtain ⟨hend, hcalls'⟩ := hsettled o' j' hpast hsame
  exact ⟨congrArg Except.ok hend, hcalls'⟩

theorem ByAnswers.ite {p : Prop} [Decidable p] {y : Act α} (hx : ByAnswers x) (hy : ByAnswers y) :
    ByAnswers (if p then x else y) := by
  split
  · exact hx
  · exact hy

end Act

open Act

/-! ## Replays -/

namespace Replay

variable (c : Config) (r : Record)

theorem fork_byAnswers : ByAnswers (fork c r) := by
  unfold fork
  exact .ite (.host _) (.host _)

theorem attach_byAnswers : ByAnswers (attach c) := ByAnswers.lift.bind fun _ => .host _

theorem capBaseFee_byAnswers : ByAnswers (capBaseFee r) := by
  unfold capBaseFee
  refine (ByAnswers.host _).bind fun (balance : Int) => (ByAnswers.host _).bind fun (fee : Int) => ?_
  exact .ite (ByAnswers.log.bind fun _ => .host _) .pure

theorem assertedPass_byAnswers : ByAnswers (assertedPass c r) :=
  (fork_byAnswers c r).bind fun _ => (attach_byAnswers c).bind fun _ => (capBaseFee_byAnswers r).bind fun _ =>
    .host _

theorem tracedPass_byAnswers : ByAnswers (tracedPass c r) :=
  (fork_byAnswers c r).bind fun _ => (capBaseFee_byAnswers r).bind fun _ => .host _

theorem retrace_byAnswers : ByAnswers (retrace c r) := by
  unfold retrace
  refine ByAnswers.log.bind fun _ => (tracedPass_byAnswers c r).attempt.bind fun ended => ?_
  cases ended with
  | error e => exact .logFault
  | ok result => exact .log

theorem unfinished_byAnswers (e : Fault) : ByAnswers (unfinished r e) := by
  unfold unfinished
  exact .ite (ByAnswers.logFault.bind fun _ => .pure) (ByAnswers.log.bind fun _ => .pure)

/-- **A replay** is settled by what the host answers to its calls. -/
theorem validate_byAnswers (classify : Classifier) : ByAnswers (validate c classify r) := by
  unfold validate
  refine (assertedPass_byAnswers c r).attempt.bind fun ended => ?_
  cases ended with
  | error e => exact unfinished_byAnswers r e
  | ok result =>
    refine ByAnswers.lift.bind fun message => ?_
    exact .ite ((retrace_byAnswers c r).bind fun _ => .pure) .pure

end Replay
end AssertionReplay
