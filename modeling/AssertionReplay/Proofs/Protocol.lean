/-
Which calls a backtest makes of the assertion host, and in which order.

A pass is a fork, the assertion if it is one that counts, the base fee, and
one execution, in this order and with the arguments of its record. It is cut
short only by a call that raises (`tracedPass_follows`,
`assertedPass_follows`), or by code that cannot be put together. The calls of
a record are one pass, and a second one for the trace of a violation
(`validate_calls`); those of a run are the calls of its records, one after
another (`run_calls`).
-/
import AssertionReplay.Backtest
import AssertionReplay.Proofs.HostCalls
import Mathlib.Data.List.Forall2

namespace AssertionReplay.Replay

open Exchange Script

variable {o : Outside} {c : Config} {r : Record} {classify : Classifier}

/-! ## A pass -/

/-- The fork of a record, taken. -/
def forked (c : Config) (r : Record) : Exchange :=
  if c.forkByHash.isGiven then answered (.forkByTransaction r.hash) () else answered (.forkByBlock r.block) ()

/-- The calls about the base fee: it is set only if the sender cannot afford it. -/
def feeCalls (r : Record) (balance fee : Int) : List Exchange :=
  let affordable := balance.fdiv r.effectiveGasLimit.toInt
  [answered (.balanceOf r.sender) balance, answered .baseFee fee] ++
    if affordable < fee then [answered (.setBaseFee affordable) ()] else []

/-- The calls of a whole pass; `attached` are those that attach the assertion. -/
def passCalls (c : Config) (r : Record) (attached : List Exchange) (traced : Bool) (balance fee : Int)
    (result : CallResult) : List Exchange :=
  forked c r :: (attached ++ (feeCalls r balance fee ++ [answered (.execute (r.execution traced)) result]))

/-- The pass that counts, up to the result of its execution. -/
def Asserted (c : Config) (r : Record) (result : CallResult) : Script := fun xs =>
  ∃ code balance fee, c.creationCode = .ok code ∧
    xs = passCalls c r [answered (.attach c.target code c.selector) ()] false balance fee result

/-- The pass for the trace. -/
def Traced (c : Config) (r : Record) (result : CallResult) : Script := fun xs =>
  ∃ balance fee, xs = passCalls c r [] true balance fee result

theorem fork_follows : Act.Follows o (fork c r) fun _ xs => xs = [forked c r] := by
  by_cases h : c.forkByHash.isGiven = true
  · have hfork : fork c r = Act.host (.forkByTransaction r.hash) := if_pos h
    have hforked : forked c r = answered (.forkByTransaction r.hash) () := if_pos h
    rw [hfork, hforked]
    exact .host _
  · have hfork : fork c r = Act.host (.forkByBlock r.block) := if_neg h
    have hforked : forked c r = answered (.forkByBlock r.block) () := if_neg h
    rw [hfork, hforked]
    exact .host _

theorem capBaseFee_follows : Act.Follows o (capBaseFee r) fun _ xs => ∃ balance fee, xs = feeCalls r balance fee := by
  unfold capBaseFee
  refine Act.Follows.bind (Act.Follows.host _) ?_ ?_
  · rintro (balance : Int) _ rfl
    refine Act.Follows.bind (Act.Follows.host _) ?_ ?_
    · rintro (fee : Int) _ rfl
      refine Act.Follows.ite (fun hlow => ?_) fun hlow => ?_
      · refine .after_log ((Act.Follows.host _).mono ?_)
        rintro _ _ rfl
        exact ⟨balance, fee, by rw [feeCalls, if_pos hlow]; rfl⟩
      · exact .pure ⟨balance, fee, by rw [feeCalls, if_neg hlow]; rfl⟩
    · rintro (fee : Int) _ rfl
      exact ⟨(), _, balance, fee, rfl⟩
  · rintro (balance : Int) _ rfl
    exact ⟨(), _, balance, 0, rfl⟩

theorem cappedExecution_follows (traced : Bool) :
    Act.Follows o (do capBaseFee r; execute r traced) fun result xs => ∃ balance fee,
      xs = feeCalls r balance fee ++ [answered (.execute (r.execution traced)) result] := by
  refine Act.Follows.bind capBaseFee_follows ?_ ?_
  · rintro _ _ ⟨balance, fee, rfl⟩
    refine (Act.Follows.host _).mono ?_
    rintro result _ rfl
    exact ⟨balance, fee, rfl⟩
  · rintro _ _ ⟨balance, fee, rfl⟩
    exact ⟨⟨true, []⟩, _, balance, fee, rfl⟩

theorem tracedPass_follows : Act.Follows o (tracedPass c r) (Traced c r) := by
  refine Act.Follows.bind fork_follows ?_ ?_
  · rintro _ _ rfl
    refine (cappedExecution_follows true).mono ?_
    rintro result _ ⟨balance, fee, rfl⟩
    exact ⟨balance, fee, rfl⟩
  · rintro _ _ rfl
    exact ⟨⟨true, []⟩, _, 0, 0, rfl⟩

theorem assertedPass_follows {code : Blob} (hcode : c.creationCode = .ok code) :
    Act.Follows o (assertedPass c r) (Asserted c r) := by
  have hattach : attach c = Act.host (.attach c.target code c.selector) := by
    unfold attach
    rw [hcode]
    rfl
  refine Act.Follows.bind fork_follows ?_ ?_
  · rintro _ _ rfl
    rw [hattach]
    refine Act.Follows.bind (Act.Follows.host _) ?_ ?_
    · rintro ⟨⟩ _ rfl
      refine (cappedExecution_follows false).mono ?_
      rintro result _ ⟨balance, fee, rfl⟩
      exact ⟨code, balance, fee, hcode, rfl⟩
    · rintro ⟨⟩ _ rfl
      exact ⟨⟨true, []⟩, _, code, 0, 0, hcode, rfl⟩
  · rintro _ _ rfl
    exact ⟨⟨true, []⟩, _, code, 0, 0, hcode, rfl⟩

/-- Without code to attach, the fork is all there is. -/
theorem assertedPass_unjoinable {e : Fault} (hcode : c.creationCode = .error e) :
    Act.Calls o (assertedPass c r) fun result xs =>
      (∃ e, result = .error e) ∧ ∃ x : Exchange, x.call = (forked c r).call ∧ xs = [x] := by
  have hattach : ∀ f : Unit → Act CallResult, attach c >>= f = liftM (Except.error e : Except Fault CallResult) := by
    intro f
    unfold attach
    rw [hcode]
    rfl
  refine Act.Calls.bind fork_follows ?_ ?_
  · rintro _ _ rfl
    rw [hattach]
    exact .lift ⟨⟨e, rfl⟩, forked c r, rfl, rfl⟩
  · rintro e' _ ⟨ys, x, rfl, -, a, zs, -, hforked⟩
    obtain ⟨rfl, hx, -⟩ : ys = [] ∧ answered x.call a = forked c r ∧ zs = [] := by
      cases ys <;> simp_all
    exact ⟨⟨e', rfl⟩, x, by rw [← hx]; rfl, rfl⟩

/-- The calls of the pass that counts, by how it ends. -/
inductive FirstPass (c : Config) (r : Record) : Except Fault CallResult → Script
  | whole {result xs} (h : Asserted c r result xs) : FirstPass c r (.ok result) xs
  | raised {e xs} (h : CutShort (fun ys => ∃ result, Asserted c r result ys) xs) : FirstPass c r (.error e) xs
  /-- There is no code to attach. -/
  | unjoinable {e e' x} (hcode : c.creationCode = .error e) (hx : x.call = (forked c r).call) :
    FirstPass c r (.error e') [x]

theorem assertedPass_calls : Act.Calls o (assertedPass c r) (FirstPass c r) := by
  rcases hcode : c.creationCode with e | code
  · refine (assertedPass_unjoinable hcode).mono ?_
    rintro _ _ ⟨⟨e', rfl⟩, x, hx, rfl⟩
    exact .unjoinable hcode hx
  · refine Act.Calls.mono (assertedPass_follows hcode) fun ended xs h => ?_
    cases ended with
    | ok result => exact .whole h
    | error e => exact .raised h

/-! ## A record -/

/-- The pass that counts found a violation, and violations are to be replayed for their trace. -/
def Retraced (c : Config) (classify : Classifier) (result : CallResult) : Prop :=
  c.traceFailures.isGiven = true ∧
    ∃ message, messageOf result = .ok message ∧ (classify result.success message).isViolation = true

/-- The calls that are made for one record. -/
inductive Segment (c : Config) (classify : Classifier) (r : Record) : Script
  /-- A call of the pass raised. -/
  | raised {xs} (h : CutShort (fun ys => ∃ result, Asserted c r result ys) xs) : Segment c classify r xs
  /-- There is no code to attach: nothing is asked of the fork. -/
  | unjoinable {e x} (hcode : c.creationCode = .error e) (hx : x.call = (forked c r).call) :
    Segment c classify r [x]
  | judged {result xs} (h : Asserted c r result xs) (hno : ¬ Retraced c classify result) : Segment c classify r xs
  /-- The pass is followed by one for the trace, which may be cut short as well. -/
  | retraced {result xs ys} (h : Asserted c r result xs) (hyes : Retraced c classify result)
    (hys : (∃ trace, Traced c r trace ys) ∨ CutShort (fun zs => ∃ trace, Traced c r trace zs) ys) :
    Segment c classify r (xs ++ ys)

/-- A replay for the trace tells nothing but that it is over. -/
theorem retrace_calls : Act.Calls o (retrace c r) fun ended ys => ended = .ok () ∧
    ((∃ trace, Traced c r trace ys) ∨ CutShort (fun zs => ∃ trace, Traced c r trace zs) ys) := by
  unfold retrace
  refine .after_log ((Act.Calls.attempt tracedPass_follows).bind ?_ ?_)
  · rintro result ys ⟨_, ⟨⟩, h⟩
    cases result with
    | error e => exact .logFault ⟨rfl, by rw [List.append_nil]; exact .inr h⟩
    | ok result => exact .log ⟨rfl, by rw [List.append_nil]; exact .inl ⟨result, h⟩⟩
  · rintro _ _ ⟨_, h, -⟩
    cases h

/-- What is done about a finished pass. -/
def judge (c : Config) (classify : Classifier) (r : Record) (result : CallResult) : Act Verdict := do
  let verdict := classify result.success (← messageOf result)
  if verdict.isViolation && c.traceFailures.isGiven then retrace c r
  return verdict

/-- A replay goes on as its pass that counts ended. -/
theorem validate_apply {j j' : Journal} {ended : Except Fault CallResult} (h : assertedPass c r o j = (ended, j')) :
    validate c classify r o j =
      (match ended with
        | .error e => unfinished r e
        | .ok result => judge c classify r result) o j' := by
  unfold validate
  rw [Act.bind_apply_of_ok (Act.attempt_apply h)]
  cases ended <;> rfl

/-- The verdict is a violation, and violations are to be replayed for their trace. -/
def Retraces (c : Config) (ended : Except Fault Verdict) : Prop :=
  c.traceFailures.isGiven = true ∧ ∃ verdict, ended = .ok verdict ∧ verdict.isViolation = true

/-- What is called after the pass that counts, by the verdict on it: a pass for the trace, which may be cut
short, or nothing. -/
inductive Followed (c : Config) (r : Record) (ended : Except Fault Verdict) : Script
  | retraced {xs} (hyes : Retraces c ended)
    (hxs : (∃ trace, Traced c r trace xs) ∨ CutShort (fun ys => ∃ trace, Traced c r trace ys) xs) :
    Followed c r ended xs
  | judged (hno : ¬ Retraces c ended) : Followed c r ended []

/-- The verdict on a pass that ended so. -/
def verdictOn (classify : Classifier) : Except Fault CallResult → Except Fault Verdict
  | .error e => .ok ⟨.unknownError, if e.isOwn then e.text else e.label⟩
  | .ok result => (messageOf result).map (classify result.success)

theorem retraces_iff {result : CallResult} :
    Retraces c (verdictOn classify (.ok result)) ↔ Retraced c classify result := by
  rw [verdictOn, Retraces, Retraced]
  cases messageOf result <;> simp [Except.map]

/-- A pass that broke is no violation. -/
theorem not_retraces_error (e : Fault) : ¬ Retraces c (verdictOn classify (.error e)) := by
  rintro ⟨-, _, ⟨⟩, hviolation⟩
  cases hviolation

theorem unfinished_followed (e : Fault) : Act.Calls o (unfinished r e) fun verdict ys =>
    verdict = verdictOn classify (.error e) ∧ Followed c r verdict ys := by
  have hnone : Followed c r (verdictOn classify (.error e)) [] := .judged (not_retraces_error e)
  unfold unfinished
  rw [verdictOn] at hnone ⊢
  split
  · rename_i hown
    rw [if_pos hown] at hnone
    exact .after_logFault (.pure ⟨rfl, hnone⟩)
  · rename_i hown
    rw [if_neg hown] at hnone
    exact .after_log (.pure ⟨rfl, hnone⟩)

/-- A judgement is made of the message, and the trace comes after it. -/
theorem judge_followed (result : CallResult) : Act.Calls o (judge c classify r result) fun verdict ys =>
    verdict = verdictOn classify (.ok result) ∧ Followed c r verdict ys := by
  unfold judge
  rw [verdictOn]
  refine .after_lift (fun message hmessage => ?_) fun e hmessage => ?_ <;> rw [hmessage]
  · dsimp only
    split
    · rename_i hyes
      rw [Bool.and_eq_true] at hyes
      refine retrace_calls.bind ?_ ?_
      · rintro _ ys ⟨-, hys⟩
        refine .pure ⟨rfl, ?_⟩
        rw [List.append_nil]
        exact .retraced ⟨hyes.2, _, rfl, hyes.1⟩ hys
      · rintro _ _ ⟨h, -⟩
        cases h
    · rename_i hno
      refine .pure ⟨rfl, .judged ?_⟩
      rintro ⟨htrace, _, ⟨⟩, hviolation⟩
      exact hno (by rw [hviolation, htrace]; rfl)
  · refine ⟨rfl, .judged ?_⟩
    rintro ⟨-, _, h, -⟩
    cases h

/-- **What a replay comes to** is made of how its pass that counts ended, and of nothing else, and so is
what follows this pass. -/
theorem validate_followed (classify : Classifier) {j j' : Journal} {ended : Except Fault CallResult}
    (hpass : assertedPass c r o j = (ended, j')) :
    (validate c classify r o j).1 = verdictOn classify ended ∧
      ∃ more, (validate c classify r o j).2.hostCalls = j'.hostCalls ++ more ∧
        Followed c r (verdictOn classify ended) (o.exchanges j'.hostCalls more) := by
  have hrest : Act.Calls o (match ended with
      | .error e => unfinished r e
      | .ok result => judge c classify r result) fun verdict ys =>
        verdict = verdictOn classify ended ∧ Followed c r verdict ys := by
    cases ended with
    | error e => exact unfinished_followed e
    | ok result => exact judge_followed result
  obtain ⟨more, hmore, hvalue, hfollowed⟩ := hrest j'
  rw [validate_apply hpass]
  exact ⟨hvalue, more, hmore, by rwa [hvalue] at hfollowed⟩

theorem validate_value (o : Outside) (j : Journal) :
    (validate c classify r o j).1 = verdictOn classify (assertedPass c r o j).1 :=
  (validate_followed classify (Prod.eta (assertedPass c r o j)).symm).1

theorem FirstPass.segment {ended : Except Fault CallResult} {xs ys : List Exchange} (h : FirstPass c r ended xs)
    (hys : Followed c r (verdictOn classify ended) ys) : Segment c classify r (xs ++ ys) := by
  cases hys with
  | retraced hyes hys =>
    cases h with
    | whole h => exact .retraced h (retraces_iff.mp hyes) hys
    | raised | unjoinable => exact absurd hyes (not_retraces_error _)
  | judged hno =>
    rw [List.append_nil]
    cases h with
    | whole h => exact .judged h (mt retraces_iff.mpr hno)
    | raised h => exact .raised h
    | unjoinable hcode hx => exact .unjoinable hcode hx

/-- **The calls of a record**, however its replay ends. -/
theorem validate_calls : Act.Calls o (validate c classify r) fun _ => Segment c classify r := by
  intro j
  obtain ⟨calls, hcalls, hfirst⟩ := assertedPass_calls (o := o) (c := c) (r := r) j
  obtain ⟨-, more, hmore, hfollowed⟩ := validate_followed classify (Prod.eta (assertedPass c r o j)).symm
  rw [hcalls] at hmore hfollowed
  refine ⟨calls ++ more, by rw [hmore, List.append_assoc], ?_⟩
  rw [o.exchanges_append]
  exact hfirst.segment hfollowed

/-! ## Forks and executions -/

/-- What the fork of the host is good for. -/
inductive ForkState where
  /-- There is none, or an execution has used it. -/
  | spent
  | plain
  /-- The assertion is attached to it. -/
  | watched

namespace ForkState

/-- What a call makes of the fork. Only a plain one takes the assertion, only a watched one serves an
execution without tracing, and only a plain one an execution with it. -/
def next? : ForkState → HostCall → Option ForkState
  | _, .forkByTransaction _ | _, .forkByBlock _ => some plain
  | plain, .attach .. => some watched
  | _, .attach .. => none
  | plain, .execute e => if e.traced then some spent else none
  | watched, .execute e => if e.traced then none else some spent
  | spent, .execute _ => none
  | s, .balanceOf _ | s, .baseFee | s, .setBaseFee _ => some s

end ForkState

/-- Every execution has a fork of its own, to which the assertion is attached exactly if the execution
is one without tracing. -/
def Orderly (calls : List HostCall) : Prop := ∃ s, calls.foldlM ForkState.next? .spent = some s

/-- The calls are orderly whatever was called before them. -/
def OrderlyAfter : Script := fun xs => ∀ s, ∃ s', (xs.map (·.call)).foldlM ForkState.next? s = some s'

theorem OrderlyAfter.append {xs ys : List Exchange} (hxs : OrderlyAfter xs) (hys : OrderlyAfter ys) :
    OrderlyAfter (xs ++ ys) := by
  intro s
  obtain ⟨s', hs'⟩ := hxs s
  obtain ⟨s'', hs''⟩ := hys s'
  exact ⟨s'', by rw [List.map_append, List.foldlM_append, hs']; exact hs''⟩

theorem OrderlyAfter.of_cutShort {P : Script} {xs : List Exchange} (hP : ∀ ys, P ys → OrderlyAfter ys)
    (h : CutShort P xs) : OrderlyAfter xs := by
  obtain ⟨ys, x, rfl, -, a, zs, hys⟩ := h
  intro s
  obtain ⟨s', hs'⟩ := hP _ hys s
  have hcalls : (ys ++ answered x.call a :: zs).map (·.call) = (ys ++ [x]).map (·.call) ++ zs.map (·.call) := by
    simp [answered]
  rw [hcalls, List.foldlM_append] at hs'
  obtain ⟨s'', hs'', -⟩ := Option.bind_eq_some_iff.mp hs'
  exact ⟨s'', hs''⟩

theorem next?_forked (s : ForkState) : s.next? (forked c r).call = some .plain := by
  unfold forked
  split <;> cases s <;> rfl

theorem foldlM_feeCalls (balance fee : Int) (s : ForkState) :
    ((feeCalls r balance fee).map (·.call)).foldlM ForkState.next? s = some s := by
  unfold feeCalls
  dsimp only
  split <;> cases s <;> rfl

theorem orderly_asserted {result : CallResult} {xs : List Exchange} (h : Asserted c r result xs) :
    OrderlyAfter xs := by
  obtain ⟨code, balance, fee, -, rfl⟩ := h
  intro s
  refine ⟨.spent, ?_⟩
  simp only [passCalls, List.map_cons, List.map_append, List.foldlM_cons, List.foldlM_append, next?_forked,
    foldlM_feeCalls]
  rfl

theorem orderly_traced {result : CallResult} {xs : List Exchange} (h : Traced c r result xs) : OrderlyAfter xs := by
  obtain ⟨balance, fee, rfl⟩ := h
  intro s
  refine ⟨.spent, ?_⟩
  simp only [passCalls, List.map_cons, List.map_append, List.foldlM_cons, List.foldlM_append, next?_forked,
    foldlM_feeCalls]
  rfl

theorem orderly_segment {xs : List Exchange} (h : Segment c classify r xs) : OrderlyAfter xs := by
  cases h with
  | raised h => exact .of_cutShort (fun ys ⟨_, hys⟩ => orderly_asserted hys) h
  | unjoinable hcode hx => exact fun s => ⟨.plain, by rw [List.map_singleton, hx, List.foldlM_cons, next?_forked]; rfl⟩
  | judged h hno => exact orderly_asserted h
  | retraced h hyes hys =>
    refine (orderly_asserted h).append ?_
    rcases hys with ⟨trace, hys⟩ | hys
    · exact orderly_traced hys
    · exact .of_cutShort (fun ys ⟨_, hys⟩ => orderly_traced hys) hys

theorem orderly_segments {rs : List Record} {segments : List (List Exchange)}
    (h : List.Forall₂ (Segment c classify) rs segments) : OrderlyAfter segments.flatten := by
  induction h with
  | nil => exact fun s => ⟨s, rfl⟩
  | cons hx _ ih => exact (orderly_segment hx).append ih

/-! ## A run -/

/-- The calls of a run: a segment for each record in order, for all of them if the run returns. -/
def Segments (c : Config) (classify : Classifier) (rs : List Record) (result : Except Fault Tally) : Script :=
  fun xs => ∃ segments : List (List Exchange), xs = segments.flatten ∧
    List.Forall₂ (Segment c classify) (rs.take segments.length) segments ∧
    ∀ t, result = .ok t → segments.length = rs.length

theorem Segments.cons {rs : List Record} {result : Except Fault Tally} {xs ys : List Exchange}
    (hxs : Segment c classify r xs) (hys : Segments c classify rs result ys) :
    Segments c classify (r :: rs) result (xs ++ ys) := by
  obtain ⟨segments, rfl, hall, hlength⟩ := hys
  exact ⟨xs :: segments, rfl, .cons hxs hall, fun t ht => by rw [List.length_cons, hlength t ht, List.length_cons]⟩

theorem Segments.failed {rs : List Record} {e : Fault} : Segments c classify rs (.error e) [] :=
  ⟨[], rfl, .nil, fun _ h => by cases h⟩

theorem replayAll_calls (total position : Nat) (tally : Tally) (rs : List Record) :
    Act.Calls o (Backtest.replayAll c classify total position tally rs) (Segments c classify rs) := by
  induction rs generalizing position tally with
  | nil => exact .pure ⟨[], rfl, .nil, fun _ _ => rfl⟩
  | cons r rs ih =>
    unfold Backtest.replayAll
    refine validate_calls.bind ?_ ?_
    · intro verdict xs hxs
      refine .after_lift (fun line _ => ?_) fun e _ => .cons hxs .failed
      exact .after_log ((ih _ _).mono fun _ _ hys => .cons hxs hys)
    · intro e xs hxs
      rw [← List.append_nil xs]
      exact .cons hxs .failed

theorem logSummary_calls (t : Tally) : Act.Calls o t.logSummary fun _ xs => xs = [] := by
  have hlines : ∀ lines : List Text, Act.Calls o
      (Act.forEach lines fun line => Act.log (Tally.lineLevel line) line) fun _ xs => xs = [] := by
    intro lines
    induction lines with
    | nil => exact .pure rfl
    | cons line lines ih => exact .after_log ih
  exact .after_lift (fun lines _ => hlines lines) fun _ _ => rfl

/-- **The host calls of a run.** They are the calls of the records, one segment after another, and each
execution has a fork of its own, with the assertion attached exactly if it is not traced. -/
theorem run_calls (c : Config) (classify : Classifier) (rs : List Record) (o : Outside) (j : Journal) :
    ∃ (calls : List HostCall) (segments : List (List Exchange)),
      (Backtest.run c classify (some rs) o j).2.hostCalls = j.hostCalls ++ calls ∧
      o.exchanges j.hostCalls calls = segments.flatten ∧
      List.Forall₂ (Segment c classify) (rs.take segments.length) segments ∧
      (∀ t, (Backtest.run c classify (some rs) o j).1 = .ok t → segments.length = rs.length) ∧
      Orderly calls := by
  have hrun : Act.Calls o (Backtest.run c classify (some rs)) (Segments c classify rs) := by
    unfold Backtest.run
    refine .after_lift (fun start _ => ?_) fun _ _ => .failed
    refine .after_logWritten ?_
    refine (replayAll_calls rs.length 1 { total := rs.length } rs).bind ?_ ?_
    · intro tally xs hxs
      refine (logSummary_calls tally).bind ?_ ?_
      · rintro _ _ rfl
        exact .pure (by simpa using hxs)
      · rintro e _ rfl
        obtain ⟨segments, rfl, hall, -⟩ := hxs
        exact ⟨segments, List.append_nil _, hall, fun _ h => by cases h⟩
    · exact fun e xs hxs => hxs
  obtain ⟨calls, hcalls, segments, hflat, hall, hlength⟩ := hrun j
  refine ⟨calls, segments, hcalls, hflat, hall, hlength, ?_⟩
  obtain ⟨s, hs⟩ := orderly_segments hall .spent
  exact ⟨s, by rw [← hs, ← hflat, o.map_call_exchanges]⟩

/-- Answers every call, and everything it executes succeeds. -/
def willingHost : Outside where
  reply := fun _ _ => .timeout
  host := fun _ call =>
    match call with
    | .balanceOf _ | .baseFee => .ok (0 : Int)
    | .execute _ => .ok (⟨true, []⟩ : CallResult)
    | .forkByTransaction _ | .forkByBlock _ | .attach .. | .setBaseFee _ => .ok ()
  clock := fun _ => .zero
  columns? := none
  schedule := .inOrder

/-- Parameters with bytecode, and with null in the place of the constructor arguments. -/
def nullArguments : Config where
  target := "0x1111111111111111111111111111111111111111"
  endBlock := .int 5
  blockRange := .int 3
  bytecode := .bytes [0x60]
  selector := .bytes [1, 2, 3, 4]
  url := .str "http://node"
  arguments := .other .null
  forkByHash := .bool true
  batchSize := .int 20
  concurrency := .int 10
  timeout := .int 30
  detectInner := .bool true
  traceFailures := .bool true
  version := .int 1

def plainRecord : Record where
  hash := "0x01"
  sender := Address.zero
  recipient := Address.zero
  value := .int 0
  data := []
  block := .int 4
  index := .int 0
  gasPrice := .int 1

/-- A pass can end without a call that raised: here the fork is answered, and nothing comes after it. -/
theorem nullArguments_stop_after_fork :
    ∃ xs, (Backtest.run nullArguments .standard (some [plainRecord]) willingHost []).2.hostCalls = xs.map (·.call) ∧
      xs = willingHost.exchanges [] (xs.map (·.call)) ∧
      (¬ ∃ x ∈ xs, x.Raised) ∧ (¬ ∃ result, Asserted nullArguments plainRecord result xs) ∧
      ¬ CutShort (fun ys => ∃ result, Asserted nullArguments plainRecord result ys) xs := by
  have hanswered : ¬ ∃ x ∈ [answered (.forkByTransaction "0x01") ()], x.Raised := by
    rintro ⟨x, hx, hraised⟩
    rw [List.mem_singleton.mp hx] at hraised
    exact not_raised_answered _ _ hraised
  refine ⟨[answered (.forkByTransaction "0x01") ()], rfl, rfl, hanswered, ?_, fun h => hanswered h.raised⟩
  rintro ⟨result, code, balance, fee, hcode, -⟩
  cases hcode

end AssertionReplay.Replay
