/-
What a bad replay can do to a backtest.

Whatever the host raises in the pass that counts is caught, and makes the
verdict an unknown error (`validate_contained`). One fault is not caught: that
of reading the reason of a failed execution whose data is overlong. A run
that meets no such data judges every record, if the report lines about the
records can be written (`run_ends`).
-/
import AssertionReplay.Proofs.Protocol
import AssertionReplay.Proofs.Revert
import AssertionReplay.Proofs.Tally

namespace AssertionReplay

/-- The execution failed, with data whose reason cannot be read. -/
def CallResult.Overlong (result : CallResult) : Prop :=
  result.success = false ∧ Revert.Overlong result.data

/-- An execution without tracing ended so. -/
def Exchange.Overlong (x : Exchange) : Prop :=
  ∃ e result, x = answered (.execute e) result ∧ e.traced = false ∧ result.Overlong

/-- The line about a transaction can show where it stood. -/
def Record.Shown (r : Record) : Prop :=
  r.block.text?.isSome = true ∧ r.index.text?.isSome = true

/-- A run has a first block. -/
def Config.Starts (c : Config) : Prop := ∃ start, c.startBlock = .ok start

theorem Classifier.outcomeOf_ne {rules : List Rule} {outcome : Outcome} (h : ∀ rule ∈ rules, rule.outcome ≠ outcome)
    (hother : outcome ≠ .assertionFailed) (message : Text) : outcomeOf rules message ≠ outcome := by
  unfold outcomeOf
  split
  · rename_i hrule
    exact h _ (List.mem_of_find?_eq_some hrule)
  · exact hother.symm

/-- An unknown error is no judgement of an execution. -/
theorem Classifier.standard_ne_unknownError (success : Bool) (message : Text) :
    (standard success message).outcome ≠ .unknownError := by
  cases success with
  | true => exact fun h => by cases h
  | false => exact outcomeOf_ne (by simp [defaultRules]) (by decide) message

namespace Replay

open Exchange Script

variable {o : Outside} {c : Config} {r : Record} {classify : Classifier}

/-! ## Calls that do not count -/

/-- Whatever is executed by the calls is executed for its trace. -/
def Uncounted (calls : List HostCall) : Prop := ∀ e, HostCall.execute e ∈ calls → e.traced = true

theorem uncounted_append_iff {calls more : List HostCall} :
    Uncounted (calls ++ more) ↔ Uncounted calls ∧ Uncounted more := by
  simp only [Uncounted, List.mem_append, or_imp, forall_and]

theorem uncounted_singleton {call : HostCall} (h : ∀ e, call ≠ .execute e) : Uncounted [call] :=
  fun e he => absurd (List.mem_singleton.mp he).symm (h e)

theorem forked_call_ne (e : Execution) : (forked c r).call ≠ .execute e := by
  unfold forked
  split <;> exact nofun

theorem uncounted_feeCalls (balance fee : Int) : Uncounted ((feeCalls r balance fee).map (·.call)) := by
  unfold feeCalls
  dsimp only
  split <;> simp [Uncounted, answered]

theorem passCalls_eq (attached : List Exchange) (traced : Bool) (balance fee : Int) (result : CallResult) :
    passCalls c r attached traced balance fee result =
      ([forked c r] ++ attached ++ feeCalls r balance fee) ++ [answered (.execute (r.execution traced)) result] := by
  simp [passCalls]

theorem uncounted_preparation {attached : List Exchange} (h : Uncounted (attached.map (·.call))) (balance fee : Int) :
    Uncounted (([forked c r] ++ attached ++ feeCalls r balance fee).map (·.call)) := by
  rw [List.map_append, List.map_append, uncounted_append_iff, uncounted_append_iff]
  exact ⟨⟨uncounted_singleton forked_call_ne, h⟩, uncounted_feeCalls balance fee⟩

theorem asserted_eq {result : CallResult} {xs : List Exchange} (h : Asserted c r result xs) :
    ∃ before, Uncounted (before.map (·.call)) ∧ xs = before ++ [answered (.execute (r.execution false)) result] := by
  obtain ⟨code, balance, fee, -, rfl⟩ := h
  have hattached : Uncounted ([answered (.attach c.target code c.selector) ()].map (·.call)) :=
    uncounted_singleton fun e => nofun
  exact ⟨_, uncounted_preparation hattached balance fee, passCalls_eq ..⟩

theorem traced_eq {result : CallResult} {xs : List Exchange} (h : Traced c r result xs) :
    ∃ before, Uncounted (before.map (·.call)) ∧ xs = before ++ [answered (.execute (r.execution true)) result] := by
  obtain ⟨balance, fee, rfl⟩ := h
  have hnone : Uncounted (([] : List Exchange).map (·.call)) := by simp [Uncounted]
  exact ⟨_, uncounted_preparation hnone balance fee, passCalls_eq ..⟩

/-- Nothing that counts comes before the last of the calls. -/
def CountsLast : Script := fun xs => Uncounted (xs.dropLast.map (·.call))

theorem countsLast_asserted {result : CallResult} {xs : List Exchange} (h : Asserted c r result xs) :
    CountsLast xs := by
  obtain ⟨before, hbefore, rfl⟩ := asserted_eq h
  rwa [CountsLast, List.dropLast_concat]

theorem countsLast_traced {result : CallResult} {xs : List Exchange} (h : Traced c r result xs) : CountsLast xs := by
  obtain ⟨before, hbefore, rfl⟩ := traced_eq h
  rwa [CountsLast, List.dropLast_concat]

/-- What is cut short stops before what counts, or at it. -/
theorem CountsLast.of_cutShort {P : Script} {xs : List Exchange} (hP : ∀ ys, P ys → CountsLast ys)
    (h : CutShort P xs) : CountsLast xs := by
  obtain ⟨ys, x, rfl, -, a, zs, hys⟩ := h
  have hwhole := hP _ hys
  rw [CountsLast, List.dropLast_append_of_ne_nil (List.cons_ne_nil _ _), List.map_append,
    uncounted_append_iff] at hwhole
  rw [CountsLast, List.dropLast_concat]
  exact hwhole.1

/-! ## Calls without overlong data -/

/-- No execution that counts gave overlong data. -/
def Quiet : Script := fun xs => ∀ x ∈ xs, ¬ x.Overlong

theorem Quiet.append {xs ys : List Exchange} (hxs : Quiet xs) (hys : Quiet ys) : Quiet (xs ++ ys) :=
  fun x hx => (List.mem_append.mp hx).elim (hxs x) (hys x)

theorem quiet_nil : Quiet [] := by simp [Quiet]

theorem Quiet.singleton {x : Exchange} (h : ¬ x.Overlong) : Quiet [x] := by
  rintro _ hx
  rwa [List.mem_singleton.mp hx]

theorem quiet_append_iff {xs ys : List Exchange} : Quiet (xs ++ ys) ↔ Quiet xs ∧ Quiet ys :=
  ⟨fun h => ⟨fun x hx => h x (List.mem_append_left _ hx), fun x hx => h x (List.mem_append_right _ hx)⟩,
    fun h => h.1.append h.2⟩

/-- Only what executes, and does not trace, gives data that counts. -/
theorem Uncounted.quiet {xs : List Exchange} (h : Uncounted (xs.map (·.call))) : Quiet xs := by
  intro x hx hover
  obtain ⟨e, result, rfl, huntraced, -⟩ := hover
  have htraced := h e (List.mem_map.mpr ⟨_, hx, rfl⟩)
  rw [huntraced] at htraced
  cases htraced

theorem not_overlong_of_raised {x : Exchange} (h : x.Raised) : ¬ x.Overlong := by
  rintro ⟨e, result, rfl, -⟩
  exact not_raised_answered _ _ h

theorem overlong_execution_iff {e : Execution} {result : CallResult} (h : e.traced = false) :
    (answered (.execute e) result).Overlong ↔ result.Overlong := by
  refine ⟨?_, fun hresult => ⟨e, result, rfl, h, hresult⟩⟩
  rintro ⟨e', result', heq, -, hresult⟩
  cases heq
  exact hresult

/-- Whatever raises comes before there is any data, or instead of it. -/
theorem quiet_of_cutShort {P : Script} {xs : List Exchange} (hP : ∀ ys, P ys → CountsLast ys) (h : CutShort P xs) :
    Quiet xs := by
  have hlast := CountsLast.of_cutShort hP h
  obtain ⟨ys, x, rfl, hraised, -⟩ := h
  rw [CountsLast, List.dropLast_concat] at hlast
  exact hlast.quiet.append (.singleton (not_overlong_of_raised hraised))

theorem quiet_traced {xs : List Exchange}
    (h : (∃ trace, Traced c r trace xs) ∨ CutShort (fun ys => ∃ trace, Traced c r trace ys) xs) : Quiet xs := by
  rcases h with ⟨trace, h⟩ | h
  · obtain ⟨before, hbefore, rfl⟩ := traced_eq h
    refine Uncounted.quiet ?_
    rw [List.map_append, uncounted_append_iff]
    refine ⟨hbefore, fun e he => ?_⟩
    cases List.mem_singleton.mp he
    rfl
  · exact quiet_of_cutShort (fun ys ⟨trace, hys⟩ => countsLast_traced hys) h

/-! ## A record -/

/-- The pass that counts cannot be finished. -/
def Broken (c : Config) (xs : List Exchange) : Prop :=
  (∃ e, c.creationCode = .error e) ∨ ∃ x ∈ xs, x.Raised

/-- How the pass that counts ends, told by its calls. -/
def PassEnds (c : Config) : Except Fault CallResult → Script
  | .ok result, xs => ¬ Broken c xs ∧ ((∃ x ∈ xs, x.Overlong) ↔ result.Overlong)
  | .error _, xs => Broken c xs ∧ Quiet xs

theorem not_raised_forked : ¬ (forked c r).Raised := by
  unfold forked
  split <;> exact not_raised_answered _ _

theorem not_raised_feeCalls {balance fee : Int} {x : Exchange} (h : x ∈ feeCalls r balance fee) : ¬ x.Raised := by
  unfold feeCalls at h
  dsimp only at h
  split at h <;> simp only [List.cons_append, List.nil_append, List.append_nil, List.mem_cons, List.not_mem_nil,
    or_false] at h
  · obtain rfl | rfl | rfl := h <;> exact not_raised_answered _ _
  · obtain rfl | rfl := h <;> exact not_raised_answered _ _

theorem not_raised_of_asserted {result : CallResult} {xs : List Exchange} (h : Asserted c r result xs) :
    ¬ ∃ x ∈ xs, x.Raised := by
  obtain ⟨code, balance, fee, -, rfl⟩ := h
  intro ⟨x, hx, hraised⟩
  simp only [passCalls, List.mem_cons, List.mem_append, List.not_mem_nil, or_false] at hx
  rcases hx with rfl | rfl | hx | rfl
  · exact not_raised_forked hraised
  · exact not_raised_answered _ _ hraised
  · exact not_raised_feeCalls hx hraised
  · exact not_raised_answered _ _ hraised

theorem assertedPass_ends : Act.Calls o (assertedPass c r) (PassEnds c) := by
  refine assertedPass_calls.mono fun ended xs h => ?_
  cases h with
  | raised h =>
    exact ⟨.inr (CutShort.raised h), quiet_of_cutShort (fun ys ⟨_, hys⟩ => countsLast_asserted hys) h⟩
  | unjoinable hcode hx =>
    refine ⟨.inl ⟨_, hcode⟩, Uncounted.quiet ?_⟩
    rw [List.map_singleton, hx]
    exact uncounted_singleton forked_call_ne
  | @whole result _ h =>
    have hbroken : ¬ Broken c xs := by
      rintro (⟨e, he⟩ | hraised)
      · obtain ⟨code, _, _, hcode, -⟩ := h
        cases hcode.symm.trans he
      · exact not_raised_of_asserted h hraised
    refine ⟨hbroken, ?_⟩
    obtain ⟨before, hbefore, rfl⟩ := asserted_eq h
    have hlast : (answered (.execute (r.execution false)) result).Overlong ↔ result.Overlong :=
      overlong_execution_iff rfl
    constructor
    · rintro ⟨x, hx, hover⟩
      rcases List.mem_append.mp hx with hx | hx
      · exact absurd hover (hbefore.quiet x hx)
      · rw [List.mem_singleton.mp hx] at hover
        exact hlast.mp hover
    · exact fun hover => ⟨_, by simp, hlast.mpr hover⟩

theorem messageOf_cases (result : CallResult) : (∃ message, messageOf result = .ok message ∧ ¬ result.Overlong) ∨
    messageOf result = .error .outOfRange ∧ result.Overlong := by
  unfold messageOf CallResult.Overlong
  by_cases hsuccess : result.success = true
  · rw [if_pos hsuccess]
    exact .inl ⟨_, rfl, by simp [hsuccess]⟩
  · rw [if_neg hsuccess]
    rcases Revert.reason_cases result.data with ⟨text, hreason, hno⟩ | ⟨hreason, hover⟩ <;> rw [hreason]
    · exact .inl ⟨_, rfl, fun h => hno h.2⟩
    · exact .inr ⟨rfl, by simpa using hsuccess, hover⟩

theorem Followed.quiet {ended : Except Fault Verdict} {xs : List Exchange} (h : Followed c r ended xs) : Quiet xs := by
  cases h with
  | retraced hyes hxs => exact quiet_traced hxs
  | judged hno => exact quiet_nil

/-- How a replay ends, told by the calls of its pass that counts. -/
def Judged (c : Config) : Except Fault Verdict → Script
  | .ok verdict, xs => (verdict.outcome = .unknownError ↔ Broken c xs) ∧ Quiet xs
  | .error e, xs => e = .outOfRange ∧ ∃ x ∈ xs, x.Overlong

theorem PassEnds.judged {ended : Except Fault CallResult} {xs : List Exchange} (h : PassEnds c ended xs) :
    Judged c (verdictOn .standard ended) xs := by
  cases ended with
  | error e => exact ⟨iff_of_true rfl h.1, h.2⟩
  | ok result =>
    obtain ⟨hbroken, hover⟩ := h
    rw [verdictOn]
    rcases messageOf_cases result with ⟨message, hmessage, hno⟩ | ⟨hmessage, hyes⟩ <;> rw [hmessage]
    · refine ⟨iff_of_false (Classifier.standard_ne_unknownError _ _) hbroken, fun x hx hoverlong => ?_⟩
      exact hno (hover.mp ⟨x, hx, hoverlong⟩)
    · exact ⟨rfl, hover.mpr hyes⟩

/-- **A record is judged unless its data is overlong**, and the verdict tells whether its pass broke. -/
theorem validate_contained (c : Config) (r : Record) (o : Outside) (j : Journal) :
    ∃ calls more, (assertedPass c r o j).2.hostCalls = j.hostCalls ++ calls ∧
      (validate c .standard r o j).2.hostCalls = j.hostCalls ++ (calls ++ more) ∧
      Judged c (validate c .standard r o j).1 (o.exchanges j.hostCalls calls) ∧
      Quiet (o.exchanges (j.hostCalls ++ calls) more) := by
  obtain ⟨calls, hcalls, hends⟩ := assertedPass_ends (o := o) (c := c) (r := r) j
  obtain ⟨hvalue, more, hmore, hfollowed⟩ := validate_followed .standard (Prod.eta (assertedPass c r o j)).symm
  rw [hcalls] at hmore hfollowed
  refine ⟨calls, more, hcalls, by rw [hmore, List.append_assoc], ?_, hfollowed.quiet⟩
  rw [hvalue]
  exact hends.judged

theorem validate_quiet : Act.Calls o (validate c .standard r) fun ended xs =>
    match ended with
    | .ok _ => Quiet xs
    | .error _ => ¬ Quiet xs := by
  intro j
  obtain ⟨calls, more, -, hcalls, hjudged, hquiet⟩ := validate_contained c r o j
  refine ⟨calls ++ more, hcalls, ?_⟩
  rw [o.exchanges_append]
  rcases hended : (validate c .standard r o j).1 with e | verdict <;> rw [hended] at hjudged
  · obtain ⟨-, x, hx, hover⟩ := hjudged
    exact fun h => h x (List.mem_append_left _ hx) hover
  · exact hjudged.2.append hquiet

/-! ## A run -/

theorem describe_ends (r : Record) (v : Verdict) :
    match v.describe r with
    | .ok _ => r.Shown
    | .error _ => ¬ r.Shown := by
  unfold Verdict.describe Verdict.numberText Record.Shown
  cases hblock : r.block.text? with
  | none => simp [bind, Except.bind]
  | some block => cases hindex : r.index.text? <;> simp [bind, Except.bind, pure, Except.pure]

/-- How the replay of a list of records ends, told by its calls. -/
def AllJudged (tally : Tally) (rs : List Record) : Except Fault Tally → Script
  | .ok t, xs => t.Sound ∧ t.total = tally.total ∧ t.processed = tally.processed + rs.length ∧
      (∀ r ∈ rs, r.Shown) ∧ Quiet xs
  | .error _, xs => ¬ ((∀ r ∈ rs, r.Shown) ∧ Quiet xs)

theorem replayAll_ends (total position : Nat) {tally : Tally} (rs : List Record) (h : tally.Sound) :
    Act.Calls o (Backtest.replayAll c .standard total position tally rs) (AllJudged tally rs) := by
  induction rs generalizing position tally with
  | nil => exact .pure ⟨h, rfl, by simp, by simp, quiet_nil⟩
  | cons r rs ih =>
    unfold Backtest.replayAll
    refine validate_quiet.bind ?_ ?_
    · intro verdict xs hquiet
      have hdescribe := describe_ends r verdict
      refine .after_lift (fun line hline => ?_) fun e he => ?_
      · rw [hline] at hdescribe
        refine .after_log ((ih (position + 1) (h.add r verdict)).mono fun ended ys hys => ?_)
        cases ended with
        | ok t =>
          obtain ⟨hsound, htotal, hprocessed, hall, hys⟩ := hys
          rw [Tally.add_total] at htotal
          rw [Tally.add_processed] at hprocessed
          refine ⟨hsound, htotal, by rw [hprocessed, List.length_cons]; omega, ?_, hquiet.append hys⟩
          simpa using ⟨hdescribe, hall⟩
        | error e =>
          intro h
          exact hys ⟨fun r' hr' => h.1 r' (List.mem_cons_of_mem _ hr'), (quiet_append_iff.mp h.2).2⟩
      · rw [he] at hdescribe
        exact fun h => hdescribe (h.1 r List.mem_cons_self)
    · exact fun e xs hloud h => hloud h.2

/-- How a run ends, told by its calls. -/
def RunEnds (c : Config) (rs : List Record) : Except Fault Tally → Script
  | .ok t, xs => t.total = rs.length ∧ t.processed = rs.length ∧
      c.Starts ∧ (∀ r ∈ rs, r.Shown) ∧ Quiet xs
  | .error _, xs => ¬ (c.Starts ∧ (∀ r ∈ rs, r.Shown) ∧ Quiet xs)

theorem logSummary_ends {t : Tally} (h : t.Sound) : Act.Calls o t.logSummary fun ended xs =>
    ended = .ok () ∧ xs = [] := by
  have hlines : ∀ lines : List Text, Act.Calls o
      (Act.forEach lines fun line => Act.log (Tally.lineLevel line) line) fun ended xs => ended = .ok () ∧ xs = [] := by
    intro lines
    induction lines with
    | nil => exact .pure ⟨rfl, rfl⟩
    | cons line lines ih => exact .after_log ih
  obtain ⟨lines, hsummary⟩ := h.summary
  unfold Tally.logSummary
  rw [hsummary]
  exact hlines lines

theorem run_ends (c : Config) (rs : List Record) (o : Outside) :
    Act.Calls o (Backtest.run c .standard (some rs)) (RunEnds c rs) := by
  unfold Backtest.run
  refine .after_lift (fun start hstart => ?_) fun e he => ?_
  · refine .after_logWritten ?_
    refine (replayAll_ends rs.length 1 rs (Tally.sound_new rs.length)).bind ?_ ?_
    · intro tally xs h
      obtain ⟨hsound, htotal, hprocessed, hall, hquiet⟩ := h
      refine (logSummary_ends hsound).bind ?_ ?_
      · intro _ ys h
        obtain ⟨-, rfl⟩ := h
        have hends : RunEnds c rs (.ok tally) xs := ⟨htotal, by simpa using hprocessed, ⟨start, hstart⟩, hall, hquiet⟩
        exact .pure (by simpa using hends)
      · intro e ys h
        cases h.1
    · exact fun e xs hno h => hno h.2
  · intro h
    obtain ⟨⟨_, hstart⟩, -⟩ := h
    cases he.symm.trans hstart

/-- **A bad replay ends nothing, unless its data is overlong.** Every record gets a verdict, an unknown
error exactly if its pass that counts broke, and a run judges all records, except where an execution
that counts gave overlong data, a number of a report line has no numeral, or the first block is
beyond computing. -/
theorem replays_contained (c : Config) (rs : List Record) (o : Outside) (j : Journal) :
    (∀ r j, ∃ calls more, (assertedPass c r o j).2.hostCalls = j.hostCalls ++ calls ∧
      (validate c .standard r o j).2.hostCalls = j.hostCalls ++ (calls ++ more) ∧
      Judged c (validate c .standard r o j).1 (o.exchanges j.hostCalls calls)) ∧
    ∃ calls, (Backtest.run c .standard (some rs) o j).2.hostCalls = j.hostCalls ++ calls ∧
      RunEnds c rs (Backtest.run c .standard (some rs) o j).1 (o.exchanges j.hostCalls calls) := by
  refine ⟨fun r j => ?_, run_ends c rs o j⟩
  obtain ⟨calls, more, hpass, hcalls, hjudged, -⟩ := validate_contained c r o j
  exact ⟨calls, more, hpass, hcalls, hjudged⟩

/-- An error whose text would be `2 ^ 63 - 1` bytes long. -/
def overlongData : Bytes :=
  Revert.errorSelector ++ (List.replicate 31 0 ++ [0x20]) ++ (List.replicate 24 0 ++ 0x7f :: List.replicate 7 0xff)

/-- Answers every call, and everything it executes fails with overlong data. -/
def overlongHost : Outside :=
  { willingHost with
    host := fun past call =>
      match call with
      | .execute _ => .ok (⟨false, overlongData⟩ : CallResult)
      | call => willingHost.host past call }

def noArguments : Config := { nullArguments with arguments := .bytes [] }

/-- No call raises, and still there is no verdict, and the second record is not replayed. -/
theorem overlongHost_ends_run :
    (∀ past call, ∃ a, overlongHost.host past call = .ok a) ∧
      (validate noArguments .standard plainRecord overlongHost []).1 = .error .outOfRange ∧
      (Backtest.run noArguments .standard (some [plainRecord, plainRecord]) overlongHost []).1 =
        .error .outOfRange := by
  refine ⟨fun past call => ?_, rfl, rfl⟩
  cases call <;> exact ⟨_, rfl⟩

end Replay
end AssertionReplay
