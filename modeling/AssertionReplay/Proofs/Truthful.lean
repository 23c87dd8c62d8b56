/-
What is fetched from a truthful endpoint.

An endpoint that tells the truth about a range may still refuse some ways of
tracing it, for all or for a part of its transactions. Which way a fetch takes
is then settled by the endpoint (`Probe.select_settles`): the trace of a range
is taken only if it is on offer. So the records that a fetch returns depend
on the endpoint alone, and not on the client, on the size of the batches or
on the number of workers (`Fetcher.fetch_truthful`).
-/
import AssertionReplay.Proofs.Agreement
import AssertionReplay.Proofs.Mirrors

namespace AssertionReplay

open Text Act

variable {o : Outside} {c : Client} {chain : Chain} {address : String} {a b n : Int}

/-- What the endpoint tells about the blocks from `a` to `b` and about the calls of the address in them is
the truth. Traces of ranges are given for all of them or not even for the first block; traces of blocks
and of transactions may each miss some. The blocks that probing at block `a` looks at are not odd. -/
structure Chain.Truthful (chain : Chain) (o : Outside) (c : Client) (address : String) (a b : Int) : Prop where
  blocks : chain.Served o c (fun _ => false) a b
  samples : ∀ n, 0 ≤ n → a - Probe.sampleLookback < n → n ≤ a →
    Yields o (Probe.lookUp c n) fun v => ¬ OddBlock v
  ranges : chain.TracesRanges o c address a b ∨ c.Fails o "trace_filter" (filterParams address a a)
  frames : ∃ missed, chain.TracesBlocks o c missed a b
  trees : ∃ missed, chain.TracesTransactions o c missed a b

/-! ## Which way is settled on -/

namespace Probe

theorem select_settles (target : Json) (hc : c.Orderly o) (hself : c.Mirrors c o o)
    (hbalks : ∀ e j, ¬ Balks c o n e j) :
    ∃ way, Ensures o (select c (.int n) target) (· = way) ∧ SettledOn o (ranked c (.int n) target) way := by
  have hends : Ensures o (select c (.int n) target) (SettledOn o (ranked c (.int n) target)) :=
    ((select_ends hc).mono (fun _ h => h) fun e j h => hbalks e j h).ensures
  obtain ⟨way, hway, hsettled⟩ := hends []
  refine ⟨way, fun j => ?_, hsettled⟩
  obtain ⟨way', hway', -⟩ := hends j
  have hsame := select_mirrors hself (.int n) target [] j
  rw [hway, hway'] at hsame
  exact ⟨way', hway', hsame.symm⟩

/-- The trace of a range is settled on only if it is had for the block that is probed. -/
theorem not_fails_of_settledOn (hc : c.Orderly o)
    (h : SettledOn o (ranked c (.int n) (.str address)) .traceFilter) :
    ¬ c.Fails o "trace_filter" (filterParams address n n) := by
  intro hfails
  -- The other probes report on other ways, so the trace of a range would have to be settled on by its own.
  have hfilter : Yields o (traceFilter c (.int n) (.str address))
      fun report => ¬ (report.status = .supported ∧ report.capability = .traceFilter) := by
    unfold traceFilter
    split
    · exact .pure (by simp)
    · exact (classify_fails .traceFilter hfails.orElse).imp fun _ h hsupported => h.2 hsupported.1
  have hother : ∀ {probe : Act ProbeReport} {way : Capability}, way ≠ .traceFilter →
      Ends o probe (fun report => report.capability = way) (Balks c o n) →
      Yields o probe fun report => ¬ (report.status = .supported ∧ report.capability = .traceFilter) :=
    fun hne hends => hends.mono (fun _ hway h => hne (hway.symm.trans h.2)) fun _ _ _ => trivial
  have hnone : ∀ probe ∈ ranked c (.int n) (.str address),
      Yields o probe fun report => ¬ (report.status = .supported ∧ report.capability = .traceFilter) := by
    simp only [ranked, List.forall_mem_cons]
    refine ⟨hfilter, hother (by decide) (traceBlock_ends hc), hother (by decide) (traceTransaction_ends hc), ?_⟩
    simp
  rcases h with ⟨probe, hprobe, past, report, hpast, hsupported⟩ | ⟨hway, -⟩
  · exact (hnone probe hprobe).ok (Prod.ext hpast rfl) hsupported
  · cases hway

end Probe

/-! ## What is fetched -/

namespace Fetcher

/-- A fetcher whose way of tracing is left to the endpoint, without a bar. -/
def unsettled (client : Client) (address : String) (size conc : Int) : Fetcher where
  client := client
  target := address
  batchSize := .int size
  concurrency := .int conc
  receiptFallback := false
  showProgress := false
  chosen? := none

theorem unsettled_created (client : Client) {target : Json} {size conc : Int}
    (htarget : Address.parse target = .ok address) (hsize : 1 ≤ size) (hconc : 1 ≤ conc) :
    create client target (.int size) (.int conc) true false none false =
      .ok (unsettled client address size conc) :=
  create_eq_ok_iff.mpr ⟨hsize, hconc, htarget, rfl⟩

/-- **Fetches of the truth agree**, for all clients of the endpoint that mirror each other. -/
theorem fetch_truthful (h : chain.Truthful o c address a b) (hc : c.Orderly o) (hself : c.Mirrors c o o)
    (hunbroken : ∀ e j, ¬ c.BrokenOff o e j) (h0 : 0 ≤ a) (hab : a ≤ b) :
    ∃ touching, ∀ {o' : Outside} {client : Client} {size : Int} (conc : Int), c.Mirrors client o o' → 1 ≤ size →
      (unsettled client address size conc).Returns o' a b fun r => r.records = chain.records touching a b := by
  obtain ⟨way, hway, hsettled⟩ := Probe.select_settles (.str address) hc hself
    fun e j => Probe.not_balks h.samples (hunbroken e j)
  have hsized : ∀ {client} (size conc : Int), 1 ≤ size → (unsettled client address size conc).Sized size :=
    fun _ conc hsize => ⟨rfl, hsize, conc, rfl⟩
  have hsame : ∀ {o' client size} (conc : Int), c.Mirrors client o o' →
      Ensures o' ((unsettled client address size conc).capabilityFor (.int a)) (· = way) :=
    fun _ hm => hway.mirror (Probe.select_mirrors hm (.int a) (.str address))
  -- What counts as touching depends on the way, and the way on the endpoint alone.
  cases way with
  | traceFilter =>
    have hranges := h.ranges.resolve_right (Probe.not_fails_of_settledOn hc hsettled)
    refine ⟨fun _ t => t.calls address || t.reaches address, fun conc hm hsize => ?_⟩
    exact (fetch_recovering_settled (hsized _ _ hsize) (hsame conc hm) h0 hab (h.blocks.mirror hm) (hranges.mirror hm)
      (by simp)).imp fun _ h => h.1
  | traceBlock =>
    obtain ⟨missed, htells⟩ := h.frames
    refine ⟨found address .traceBlock (fun _ => false) missed, fun conc hm hsize => ?_⟩
    exact (fetch_tells_settled (hsized _ _ hsize) (hsame conc hm) h0 hab (by decide) (h.blocks.mirror hm)
      (htells.mirror hm)).imp fun _ h => h.1
  | traceTransaction =>
    obtain ⟨missed, htells⟩ := h.trees
    refine ⟨found address .traceTransaction (fun _ => false) missed, fun conc hm hsize => ?_⟩
    exact (fetch_tells_settled (hsized _ _ hsize) (hsame conc hm) h0 hab (by decide) (h.blocks.mirror hm)
      (htells.mirror hm)).imp fun _ h => h.1
  | directCallsOnly =>
    refine ⟨found address .direct (fun _ => false) fun _ => false, fun conc hm hsize => ?_⟩
    exact (fetch_tells_settled (hsized _ _ hsize) (hsame conc hm) h0 hab (by decide) (h.blocks.mirror hm)
      trivial).imp fun _ h => h.1

end Fetcher
end AssertionReplay
