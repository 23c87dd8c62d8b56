/-
Replays for the trace only observe.

An execution without tracing is the last thing that the pass that counts asks
of the host (`countsLast_firstPass`), and the verdict is made of how this pass
ended. So hosts that answer alike until such an execution lead to the same
verdict, whatever they answer to what comes later, and whether a violation is
replayed for its trace shows in the calls after it alone
(`tracing_only_observes`).
-/
import AssertionReplay.Proofs.Answers
import AssertionReplay.Proofs.Containment

namespace AssertionReplay.Replay

open Exchange Script

variable {o o' : Outside} {c : Config} {r : Record}

/-! ## Hosts that part after what counts -/

/-- Of these calls, made after those of the past, the hosts answer alike all that come before an execution
that counts, and this execution. -/
def AlikeUntilCounted (o o' : Outside) (past calls : List HostCall) : Prop :=
  ∀ before call after, calls = before ++ call :: after → Uncounted before →
    o'.host (past ++ before) call = o.host (past ++ before) call

theorem AlikeUntilCounted.exchanges_eq {past calls more : List HostCall}
    (h : AlikeUntilCounted o o' past (calls ++ more)) (hlast : CountsLast (o.exchanges past calls)) :
    o'.exchanges past calls = o.exchanges past calls := by
  refine Outside.exchanges_congr fun before call after heq => h before call (after ++ more) (by simp [heq]) ?_
  rw [CountsLast, List.map_dropLast, o.map_call_exchanges, heq,
    List.dropLast_append_of_ne_nil (List.cons_ne_nil _ _), uncounted_append_iff] at hlast
  exact hlast.1

/-! ## The pass that counts -/

/-- The execution that counts is the last call of its pass, if the pass gets there. -/
theorem countsLast_firstPass {ended : Except Fault CallResult} {xs : List Exchange} (h : FirstPass c r ended xs) :
    CountsLast xs := by
  cases h with
  | whole h => exact countsLast_asserted h
  | raised h => exact .of_cutShort (fun ys ⟨_, hys⟩ => countsLast_asserted hys) h
  | unjoinable hcode hx => simp [CountsLast, Uncounted]

/-! ## A record -/

/-- **What is done for the trace changes no verdict.** Two hosts that answer the calls for a record alike up
to the execution that counts, and this execution, lead to the same verdict, with and without replays for the
trace, and to the same calls up to there; the execution ends the pass that counts. All that may come later
is a pass without the assertion, with each host exactly for a violation, and if violations are to be
replayed for their trace. -/
theorem tracing_only_observes (c : Config) (traceFailures : Json) (classify : Classifier) (r : Record)
    {o o' : Outside} {j j' : Journal} {calls : List HostCall}
    (hcalls : (validate c classify r o j).2.hostCalls = j.hostCalls ++ calls) (hpast : j'.hostCalls = j.hostCalls)
    (halike : AlikeUntilCounted o o' j.hostCalls calls) :
    (validate { c with traceFailures } classify r o' j').1 = (validate c classify r o j).1 ∧
    ∃ ended first more more',
      FirstPass c r ended (o.exchanges j.hostCalls first) ∧
      (validate c classify r o j).1 = verdictOn classify ended ∧
      o'.exchanges j.hostCalls first = o.exchanges j.hostCalls first ∧
      calls = first ++ more ∧
      (validate { c with traceFailures } classify r o' j').2.hostCalls = j.hostCalls ++ (first ++ more') ∧
      Followed c r (validate c classify r o j).1 (o.exchanges (j.hostCalls ++ first) more) ∧
      Followed { c with traceFailures } r (validate c classify r o j).1
        (o'.exchanges (j.hostCalls ++ first) more') := by
  -- the pass that counts does not ask whether there will be another one
  have hpass : assertedPass { c with traceFailures } r = assertedPass c r := rfl
  obtain ⟨first, hfirst, hsettled⟩ := assertedPass_byAnswers c r o j
  obtain ⟨first', hfirst', hscript⟩ := assertedPass_calls (o := o) (c := c) (r := r) j
  obtain rfl : first = first' := List.append_cancel_left (hfirst.symm.trans hfirst')
  obtain ⟨hvalue, more, hmore, hfollowed⟩ := validate_followed classify (Prod.eta (assertedPass c r o j)).symm
  rw [hfirst] at hmore hfollowed
  rw [hcalls, List.append_assoc] at hmore
  obtain rfl : calls = first ++ more := List.append_cancel_left hmore
  have hsame := halike.exchanges_eq (countsLast_firstPass hscript)
  obtain ⟨hend, hfirst₂⟩ := hsettled o' j' hpast hsame
  obtain ⟨hvalue', more', hmore', hfollowed'⟩ := validate_followed (c := { c with traceFailures }) classify
    (Prod.eta (assertedPass { c with traceFailures } r o' j')).symm
  rw [hpass, hfirst₂] at hmore' hfollowed'
  rw [hpass, hend] at hvalue'
  rw [hend] at hfollowed'
  rw [List.append_assoc] at hmore'
  rw [hvalue, hvalue']
  exact ⟨rfl, _, first, more, more', hscript, rfl, hsame, rfl, hmore', hfollowed, hfollowed'⟩

/-- Answers every call, and everything it executes fails without data. -/
def violatedHost : Outside :=
  { willingHost with
    host := fun past call =>
      match call with
      | .execute _ => .ok (⟨false, []⟩ : CallResult)
      | call => willingHost.host past call }

/-- The call is an execution that counts. -/
def counts : HostCall → Bool
  | .execute e => !e.traced
  | _ => false

/-- Answers like the host before, until an execution that counts, and nothing after it. -/
def crashingHost : Outside :=
  { violatedHost with
    host := fun past call =>
      if past.any counts then .error (.raised false "ConnectionError" "gone") else violatedHost.host past call }

theorem alike_crashingHost (calls : List HostCall) : AlikeUntilCounted violatedHost crashingHost [] calls := by
  intro before call after _ hbefore
  refine if_neg fun hany => ?_
  obtain ⟨call', hcall', hcounts⟩ := List.any_eq_true.mp hany
  cases call' with
  | execute e => simp [counts, hbefore e hcall'] at hcounts
  | _ => cases hcounts

/-- The violation is found by both, and with the second host its replay for the trace gets nowhere. -/
theorem tracing_only_observes_crashing :
    (validate noArguments .standard plainRecord violatedHost []).2.hostCalls.length = 9 ∧
      (validate noArguments .standard plainRecord crashingHost []).2.hostCalls.length = 6 ∧
      (validate noArguments .standard plainRecord crashingHost []).1 = .ok ⟨.assertionFailed, "Unknown error"⟩ := by
  refine ⟨rfl, rfl, ?_⟩
  have hpast : Journal.hostCalls ([] : Journal) = Journal.hostCalls [] := rfl
  obtain ⟨hsame, -⟩ := tracing_only_observes noArguments (.bool true) .standard plainRecord rfl hpast
    (alike_crashingHost _)
  exact hsame

end AssertionReplay.Replay
