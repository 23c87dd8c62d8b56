/-
A fetcher settles on one way of tracing.

A fetcher may fetch one range after another (`Fetcher.runEach`). A call whose
range is refused does nothing. Until a way of tracing is settled on, every
other call first selects one, and leaves the fetcher as it was if that fails;
once a selection has returned, the fetcher is settled, however the fetch goes
on (`Fetcher.Called`). From then on its calls fetch and do not probe: they ask
for blocks with their transactions, and for what the settled way of tracing
calls (`Fetcher.runEach_settled`). So all results of a sequence are of one way
of tracing, and a fetcher that was made with one never probes
(`Fetcher.one_capability_per_fetcher`).
-/
import AssertionReplay.Proofs.FetchCalls
import AssertionReplay.Proofs.FetchRequests
import AssertionReplay.Proofs.Provenance
import AssertionReplay.Proofs.Truthful

namespace AssertionReplay

open Text Act

/-! ## Requests of a fetch -/

/-- Each request of the journal satisfies the predicate. -/
def Journal.AllRequests (P : Request → Prop) (j : Journal) : Prop := ∀ r ∈ j.requests, P r

theorem Journal.trail_requests (P : Request → Prop) : Trail (AllRequests P) where
  nil := by simp [AllRequests, requests]
  append hj hk := by
    unfold AllRequests
    rw [requests_append]
    exact fun r hr => (List.mem_append.mp hr).elim (hj r) (hk r)
  quiet {e} he := by
    cases e with
    | post => cases he
    | _ => exact fun r hr => by cases hr

/-- What a fetch asks for: blocks with their transactions, and what its strategy calls. -/
def Strategy.Fetches (s : Strategy) (r : Request) : Prop :=
  (∃ n, r = Fetcher.blockRequest n) ∨ r.method ∈ s.methods

/-- What is asked for only to select a way of tracing, where another one is settled on: a trace of a way that is
not the settled one, or a block without its transactions, among which one to be traced is looked for. -/
def Capability.ProbedBeside (way : Capability) (r : Request) : Prop :=
  (∃ number, r = ⟨"eth_getBlockByNumber", .arr [number, .bool false]⟩) ∨
    ∃ other : Capability, other ≠ way ∧ r.method = other.method

theorem Strategy.Fetches.not_probed {way : Capability} {fallback : Bool} {r : Request}
    (h : (Strategy.of way fallback).Fetches r) : ¬ way.ProbedBeside r := by
  have hblock : ∀ other : Capability, ("eth_getBlockByNumber" : Text) ≠ other.method := by
    intro other
    cases other <;> simp [Capability.method, ofString_inj]
  have hlookup : ("eth_getBlockByNumber" : Text) ∉ (Strategy.of way fallback).methods := by
    cases way <;> cases fallback <;> simp [Strategy.of, methods, ofString_inj]
  have hother : ∀ other : Capability, other ≠ way →
      (other.method : Text) ∉ (Strategy.of way fallback).methods := by
    intro other hne
    cases way <;> cases fallback <;> cases other <;>
      first | exact absurd rfl hne | simp [Strategy.of, methods, Capability.method, ofString_inj]
  intro hprobed
  rcases h with ⟨n, rfl⟩ | hmethod <;> rcases hprobed with ⟨number, hr⟩ | ⟨other, hne, hr⟩
  · simp [Fetcher.blockRequest] at hr
  · exact hblock other hr
  · rw [hr] at hmethod
    exact hlookup hmethod
  · rw [hr] at hmethod
    exact hother other hne hmethod

namespace Fetcher

open Journal

variable {o : Outside} {f g : Fetcher} {first last : Json} {j j' : Journal} {outcome : Except Fault Fetched}

/-- A settled way of tracing asks for nothing else. -/
theorem fetchWith_requests (f : Fetcher) (way : Capability) (started : Binary64) (first last : Number) :
    Leaves (AllRequests (Strategy.of way f.receiptFallback).Fetches) (f.fetchWith way started first last) := by
  have hF := trail_requests (Strategy.of way f.receiptFallback).Fetches
  have hcall : ∀ method params, (Strategy.of way f.receiptFallback).Fetches ⟨method, params.orElse (.arr [])⟩ →
      Leaves (AllRequests (Strategy.of way f.receiptFallback).Fetches) (f.client.call method params) := by
    intro method params h
    exact Client.call_leaves_posts hF (by simpa [AllRequests, requests] using h)
      fun _ => by simp [AllRequests, requests]
  refine fetchWith_closed hF.closed (fun _ _ _ _ _ _ _ =>
    fetchBatch_closed_of_calls hF.closed (fun n => ?_) (fun method hmethod params => ?_) _ _) started
  · exact hcall "eth_getBlockByNumber" (.arr [.str (hexNumeral n), .bool true]) (.inl ⟨n, rfl⟩)
  · exact hcall method params (.inr hmethod)

theorem capability_of_fetchWith {way : Capability} {started : Binary64} {a b : Number} {r : Fetched}
    (h : f.fetchWith way started a b o j = (.ok r, j')) : r.capability = way :=
  ((fetchWith_yields (P := fun _ _ => True) way started a b fun _ _ =>
    Ends.any.imp fun _ _ _ _ => trivial).ok h).1

/-! ## One call -/

/-- What a call is, by the fetcher and the journal before it and by what it leaves. -/
inductive Called (o : Outside) (f : Fetcher) (first last : Json) (j : Journal) :
    Fetcher → Except Fault Fetched → Journal → Prop
  | refused {e : Fault} (hrange : rangeOf first last = .error e) : Called o f first last j f (.error e) j
  | unselected {a b : Number} {e : Fault} {j' : Journal} (hnone : f.chosen? = none)
      (hrange : rangeOf first last = .ok (a, b))
      (hselect : Probe.select f.client a.toJson (.str f.target) o (j ++ [.clock]) = (.error e, j')) :
      Called o f first last j f (.error e) j'
  | selected {a b : Number} {way : Capability} {outcome : Except Fault Fetched} {j₁ j' : Journal}
      (hnone : f.chosen? = none) (hrange : rangeOf first last = .ok (a, b))
      (hselect : Probe.select f.client a.toJson (.str f.target) o (j ++ [.clock]) = (.ok way, j₁))
      (hfetch : f.fetchWith way (o.clock j.clockReads) a b o j₁ = (outcome, j')) :
      Called o f first last j (f.settled way) outcome j'
  | settled {a b : Number} {way : Capability} {outcome : Except Fault Fetched} {j' : Journal}
      (hway : f.chosen? = some way) (hrange : rangeOf first last = .ok (a, b))
      (hfetch : f.fetchWith way (o.clock j.clockReads) a b o (j ++ [.clock]) = (outcome, j')) :
      Called o f first last j f outcome j'

theorem settled_of_chosen {way : Capability} (h : f.chosen? = some way) : f.settled way = f := by
  show { f with chosen? := some way } = f
  rw [← h]

theorem run_settled {a b : Number} {way : Capability} (hway : f.chosen? = some way)
    (hrange : rangeOf first last = .ok (a, b))
    (hfetch : f.fetchWith way (o.clock j.clockReads) a b o (j ++ [.clock]) = (outcome, j')) :
    f.run first last o j = (.ok (f, outcome), j') := by
  have hfor : f.capabilityFor a o (j ++ [.clock]) = (.ok way, j ++ [.clock]) := by
    rw [capabilityFor_of_chosen hway]
    rfl
  rw [run_selected hrange hfor hfetch, settled_of_chosen hway]

theorem capabilityFor_of_none (hnone : f.chosen? = none) (a : Number) :
    f.capabilityFor a = Probe.select f.client a.toJson (.str f.target) := by
  rw [capabilityFor, hnone]

/-- **A call never raises**, and is one of these. -/
theorem run_called (f : Fetcher) (o : Outside) (first last : Json) (j : Journal) :
    ∃ g outcome j', f.run first last o j = (.ok (g, outcome), j') ∧ Called o f first last j g outcome j' := by
  rcases hrange : rangeOf first last with e | ⟨a, b⟩
  · exact ⟨f, .error e, j, run_refused hrange, .refused hrange⟩
  cases hchosen : f.chosen? with
  | some way =>
    rcases hfetch : f.fetchWith way (o.clock j.clockReads) a b o (j ++ [.clock]) with ⟨outcome, j'⟩
    exact ⟨f, outcome, j', run_settled hchosen hrange hfetch, .settled hchosen hrange hfetch⟩
  | none =>
    have hfor := capabilityFor_of_none hchosen a
    rcases hselect : Probe.select f.client a.toJson (.str f.target) o (j ++ [.clock]) with ⟨e | way, j₁⟩
    · exact ⟨f, .error e, j₁, run_unselected hrange (by rw [hfor, hselect]), .unselected hchosen hrange hselect⟩
    · rcases hfetch : f.fetchWith way (o.clock j.clockReads) a b o j₁ with ⟨outcome, j'⟩
      exact ⟨f.settled way, outcome, j', run_selected hrange (by rw [hfor, hselect]) hfetch,
        .selected hchosen hrange hselect hfetch⟩

namespace Called

variable (h : Called o f first last j g outcome j')

include h

/-- The fetcher is left as it was, or settled for the first time. -/
theorem reached : g = f ∨ f.chosen? = none ∧ ∃ way, g = f.settled way := by
  cases h with
  | refused | unselected | settled => exact .inl rfl
  | selected hnone => exact .inr ⟨hnone, _, rfl⟩

theorem kept {way : Capability} (hway : f.chosen? = some way) : g = f := by
  rcases h.reached with heq | ⟨hnone, -⟩
  · exact heq
  · cases hnone.symm.trans hway

/-- A result is of the way of tracing that the fetcher is left with. -/
theorem result {r : Fetched} (hr : outcome = .ok r) : g.chosen? = some r.capability := by
  subst hr
  cases h with
  | selected hnone hrange hselect hfetch => rw [capability_of_fetchWith hfetch]; rfl
  | settled hway hrange hfetch => rw [capability_of_fetchWith hfetch, hway]

/-- A settled fetcher does not probe. -/
theorem requests {way : Capability} (hway : f.chosen? = some way) : ∃ more, j' = j ++ more ∧
    AllRequests (Strategy.of way f.receiptFallback).Fetches more := by
  have hF := trail_requests (Strategy.of way f.receiptFallback).Fetches
  cases h with
  | refused => exact ⟨[], (List.append_nil j).symm, hF.nil⟩
  | unselected hnone => cases hnone.symm.trans hway
  | selected hnone => cases hnone.symm.trans hway
  | @settled a b way' _ _ hchosen hrange hfetch =>
    obtain rfl : way' = way := Option.some.inj (hchosen.symm.trans hway)
    obtain ⟨more, hmore, hrequests⟩ := fetchWith_requests f way' (o.clock j.clockReads) a b o (j ++ [.clock])
    rw [hfetch] at hmore
    exact ⟨.clock :: more, by simpa using hmore, hF.append (hF.quiet rfl) hrequests⟩

end Called

/-! ## One call after another -/

/-- Fetches one range after another, each with the fetcher that the one before left. -/
def runEach (f : Fetcher) : List (Json × Json) → Act (Fetcher × List (Except Fault Fetched))
  | [] => return (f, [])
  | (first, last) :: rest => do
    let (g, outcome) ← f.run first last
    let (h, outcomes) ← g.runEach rest
    return (h, outcome :: outcomes)

theorem runEach_nil : f.runEach [] o j = (.ok (f, []), j) := rfl

theorem runEach_cons {rest : List (Json × Json)} {h : Fetcher} {outcomes : List (Except Fault Fetched)}
    {j₁ : Journal} (hrun : f.run first last o j = (.ok (g, outcome), j₁))
    (hrest : g.runEach rest o j₁ = (.ok (h, outcomes), j')) :
    f.runEach ((first, last) :: rest) o j = (.ok (h, outcome :: outcomes), j') := by
  rw [runEach, bind_apply_of_ok hrun]
  dsimp only
  rw [bind_apply_of_ok hrest]
  rfl

/-- **A sequence of calls** ends with every outcome, and its results are of the way of tracing that the fetcher
is left with. -/
theorem runEach_reached (f : Fetcher) (o : Outside) (ranges : List (Json × Json)) (j : Journal) :
    ∃ g outcomes j', f.runEach ranges o j = (.ok (g, outcomes), j') ∧ outcomes.length = ranges.length ∧
      (g = f ∨ f.chosen? = none ∧ ∃ way, g = f.settled way) ∧
      ∀ r, .ok r ∈ outcomes → g.chosen? = some r.capability := by
  induction ranges generalizing f j with
  | nil => exact ⟨f, [], j, runEach_nil, rfl, .inl rfl, by simp⟩
  | cons range rest ih =>
    obtain ⟨first, last⟩ := range
    obtain ⟨g, outcome, j₁, hrun, hcalled⟩ := run_called f o first last j
    obtain ⟨h, outcomes, j', hrest, hlength, hreached, hresults⟩ := ih g j₁
    refine ⟨h, outcome :: outcomes, j', runEach_cons hrun hrest, by simp [hlength], ?_, fun r hr => ?_⟩
    · rcases hcalled.reached with rfl | ⟨hnone, way, rfl⟩
      · exact hreached
      · have hsame : h = f.settled way := hreached.resolve_right fun hopen => by cases hopen.1
        exact .inr ⟨hnone, way, hsame⟩
    · rcases List.mem_cons.mp hr with hfirst | hlater
      · -- A fetcher that was settled by the first call is the one that is left.
        have hchosen := hcalled.result hfirst.symm
        rcases hreached with rfl | ⟨hnone, -⟩
        · exact hchosen
        · cases hnone.symm.trans hchosen
      · exact hresults r hlater

/-- **A settled fetcher never probes again.** -/
theorem runEach_settled {way : Capability} (hway : f.chosen? = some way) (o : Outside)
    (ranges : List (Json × Json)) (j : Journal) :
    ∃ outcomes more, f.runEach ranges o j = (.ok (f, outcomes), j ++ more) ∧
      (∀ r, .ok r ∈ outcomes → r.capability = way) ∧
      AllRequests (Strategy.of way f.receiptFallback).Fetches more := by
  induction ranges generalizing j with
  | nil => exact ⟨[], [], by rw [List.append_nil, runEach_nil], by simp, (trail_requests _).nil⟩
  | cons range rest ih =>
    obtain ⟨first, last⟩ := range
    obtain ⟨g, outcome, j₁, hrun, hcalled⟩ := run_called f o first last j
    -- The next call is of the same fetcher, which is what the induction is about.
    obtain rfl := hcalled.kept hway
    obtain ⟨more, rfl, hmore⟩ := hcalled.requests hway
    obtain ⟨outcomes, later, hrest, hresults, hlater⟩ := ih (j ++ more)
    refine ⟨outcome :: outcomes, more ++ later, ?_, fun r hr => ?_, (trail_requests _).append hmore hlater⟩
    · rw [← List.append_assoc]
      exact runEach_cons hrun hrest
    · rcases List.mem_cons.mp hr with hfirst | hr
      · exact Option.some.inj ((hcalled.result hfirst.symm).symm.trans hway)
      · exact hresults r hr

/-- What is known of the calls that come next, of a fetcher at a journal. A call with a range that is refused does
nothing. Without a way of tracing, another call leaves the fetcher open if the selection fails, and settles it if
the selection returns, whatever comes after it. With one, a call only fetches with it, and no call probes,
however many there are. -/
structure CallsNext (o : Outside) (g : Fetcher) (j : Journal) : Prop where
  refused : ∀ {first last e}, rangeOf first last = .error e → g.run first last o j = (.ok (g, .error e), j)
  unselected : ∀ {first last a b e j'}, g.chosen? = none → rangeOf first last = .ok (a, b) →
    Probe.select g.client a.toJson (.str g.target) o (j ++ [.clock]) = (.error e, j') →
    g.run first last o j = (.ok (g, .error e), j')
  selected : ∀ {first last a b way j₁}, g.chosen? = none → rangeOf first last = .ok (a, b) →
    Probe.select g.client a.toJson (.str g.target) o (j ++ [.clock]) = (.ok way, j₁) →
    ∃ outcome j', g.run first last o j = (.ok (g.settled way, outcome), j')
  fetched : ∀ {way first last a b outcome j'}, g.chosen? = some way → rangeOf first last = .ok (a, b) →
    g.fetchWith way (o.clock j.clockReads) a b o (j ++ [.clock]) = (outcome, j') →
    g.run first last o j = (.ok (g, outcome), j')
  settled : ∀ {way}, g.chosen? = some way → ∀ later, ∃ outcomes more,
    g.runEach later o j = (.ok (g, outcomes), j ++ more) ∧ (∀ r, .ok r ∈ outcomes → r.capability = way) ∧
    AllRequests (fun r => (Strategy.of way g.receiptFallback).Fetches r ∧ ¬ way.ProbedBeside r) more

theorem callsNext (o : Outside) (g : Fetcher) (j : Journal) : g.CallsNext o j where
  refused := run_refused
  unselected hnone hrange hselect := run_unselected hrange (by rw [capabilityFor_of_none hnone, hselect])
  selected hnone hrange hselect :=
    ⟨_, _, run_selected hrange (by rw [capabilityFor_of_none hnone, hselect]) (Prod.eta _).symm⟩
  fetched := run_settled
  settled hway later := by
    obtain ⟨outcomes, more, hrun, hresults, hrequests⟩ := runEach_settled hway o later j
    exact ⟨outcomes, more, hrun, hresults, fun r hr => ⟨hrequests r hr, (hrequests r hr).not_probed⟩⟩

theorem rangeOf_reversed {a b : Number} (h : a.lt (.int 0) = true ∨ b.lt (.int 0) = true ∨ b.lt a = true) :
    ∃ cause, rangeOf a.toJson b.toJson = .error (.config cause) := by
  unfold rangeOf
  rw [a.number?_toJson, b.number?_toJson]
  dsimp only
  unfold checkRange
  by_cases hlow : (a.lt (.int 0) || b.lt (.int 0)) = true
  · rw [if_pos hlow]
    exact ⟨_, rfl⟩
  · rw [if_neg hlow]
    have hlast : b.lt a = true := by
      simp only [Bool.or_eq_true, not_or] at hlow
      exact (h.resolve_left hlow.1).resolve_left hlow.2
    rw [if_pos hlast]
    exact ⟨_, rfl⟩

/-- **One way of tracing for each fetcher.** A fetcher is made with the way that is given, or with none of tracing
if inner calls are not to be found. After any calls with any ranges it is as it was, or settled on one way if it
was open; every result is of the way that it is settled on; and of the calls that come next is known what
`CallsNext` says. A range of numbers that is not in order is refused as a parameter. -/
theorem one_capability_per_fetcher (o : Outside) (f : Fetcher) (ranges : List (Json × Json)) (j : Journal) :
    (∀ {client target size conc detect fallback capability? bar},
      create client target size conc detect fallback capability? bar = .ok f →
        f.chosen? = if detect then capability? else some .directCallsOnly) ∧
    (∀ {a b : Number}, a.lt (.int 0) = true ∨ b.lt (.int 0) = true ∨ b.lt a = true →
      ∃ cause, rangeOf a.toJson b.toJson = .error (.config cause)) ∧
    ∃ g outcomes j', f.runEach ranges o j = (.ok (g, outcomes), j') ∧ outcomes.length = ranges.length ∧
      (g = f ∨ f.chosen? = none ∧ ∃ way, g = f.settled way) ∧
      (∀ r, .ok r ∈ outcomes → g.chosen? = some r.capability) ∧ g.CallsNext o j' := by
  refine ⟨chosen_of_create, rangeOf_reversed, ?_⟩
  obtain ⟨g, outcomes, j', hrun, hlength, hreached, hresults⟩ := runEach_reached f o ranges j
  exact ⟨g, outcomes, j', hrun, hlength, hreached, hresults, callsNext o g j'⟩

/-- An endpoint where every call fails. -/
def mute : Outside := Client.answering fun _ => none

/-- There the first call whose range is not refused settles on direct calls only, and the fetcher stays so. -/
theorem one_capability_per_fetcher_mute :
    (unsettled Sample.client Sample.address 1 1).chosen? = none ∧ ∃ cause outcome j',
      (unsettled Sample.client Sample.address 1 1).runEach [(.int 3, .int 1), (.int 1, .int 1)] mute [] =
        (.ok ((unsettled Sample.client Sample.address 1 1).settled .directCallsOnly,
          [.error (.config cause), outcome]), j') ∧
      (∀ r, outcome = .ok r → r.capability = .directCallsOnly) ∧
      ((unsettled Sample.client Sample.address 1 1).settled .directCallsOnly).CallsNext mute j' := by
  generalize hf : unsettled Sample.client Sample.address 1 1 = f
  obtain ⟨hmade, hrefused, g, outcomes, j', hrun, -, -, hresults, hnext⟩ :=
    one_capability_per_fetcher mute f [(.int 3, .int 1), (.int 1, .int 1)] []
  have hcreated : create Sample.client (.str Sample.address) (.int 1) (.int 1) true false none false = .ok f :=
    hf ▸ unsettled_created _ Sample.parse_address (by decide) (by decide)
  have hnone : f.chosen? = none := hmade hcreated
  obtain ⟨cause, hreversed⟩ := hrefused (a := .int 3) (b := .int 1) (.inr (.inr rfl))
  have hunreached : Probe.Unreached f.client mute := by
    rw [← hf]
    exact fun _ _ => Client.fails_answering (k := 4) rfl rfl
  obtain ⟨way, hway, rfl⟩ := (Probe.unreached_settles hunreached).2 [.clock]
  have hrange : rangeOf (.int 1) (.int 1) = .ok (.int 1, .int 1) := rfl
  obtain ⟨outcome, j₁, hsecond⟩ := (callsNext mute f []).selected hnone hrange (Prod.ext hway rfl)
  have hboth := runEach_cons (run_refused hreversed) (runEach_cons hsecond runEach_nil)
  cases hrun.symm.trans hboth
  exact ⟨hnone, cause, outcome, _, hboth,
    fun r hr => (Option.some.inj (hresults r (by simp [hr]))).symm, hnext⟩

end Fetcher
end AssertionReplay
