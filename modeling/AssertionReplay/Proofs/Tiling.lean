/-
The batches tile the range.

The ranges that a fetch is cut into follow one another without a gap, and all
but the last have the size that was asked for (`Fetcher.tiles_batches`). What
one batch adds to the calls of the batches before it gives what the whole fetch
calls (`Fetcher.fetchBatches_makes`): each block of the range is asked for once
after the way of tracing is settled, and where ranges are traced, each of them
is traced once, after its own blocks and before those of the next
(`Fetcher.fetch_tiles`).
-/
import AssertionReplay.Proofs.Agreement
import AssertionReplay.Proofs.FetchCalls
import AssertionReplay.Proofs.FetchRequests
import Mathlib.Algebra.Order.Floor.Div
import Mathlib.Data.List.Chain

namespace AssertionReplay

open Text

namespace Fetcher

/-! ## Ranges -/

/-- The ranges cover the blocks from `first` to `last` one after another, `size` blocks each but for
the last, which may have fewer. -/
structure Tiles (size : Nat) (first last : Int) (ranges : List (Int × Int)) : Prop where
  count : ranges.length = (last + 1 - first).toNat ⌈/⌉ size
  cover : ranges.flatMap (fun range => blocksBetween range.1 range.2) = blocksBetween first last
  nonempty : ∀ range ∈ ranges, range.1 ≤ range.2
  consecutive : ranges.IsChain fun range next => next.1 = range.2 + 1
  disjoint : ranges.Pairwise fun range later => range.2 < later.1
  bounded : ∀ range ∈ ranges, range.2 + 1 - range.1 ≤ size
  full : ∀ range ∈ ranges.dropLast, range.2 + 1 - range.1 = size

variable {size : Nat} {first last : Int}

theorem ceilDiv_step {n : Nat} (hs : 0 < size) (hn : 0 < n) : n ⌈/⌉ size = (n - size) ⌈/⌉ size + 1 := by
  rw [Nat.ceilDiv_eq_add_pred_div, Nat.ceilDiv_eq_add_pred_div]
  by_cases hfull : size ≤ n
  · rw [show n + size - 1 = n - size + size - 1 + size by omega, Nat.add_div_right _ hs]
  · rw [show n - size + size - 1 = size - 1 by omega, Nat.div_eq_of_lt (by omega : size - 1 < size),
      show n + size - 1 = n - 1 + size by omega, Nat.add_div_right _ hs, Nat.div_eq_of_lt (by omega : n - 1 < size)]

theorem length_batches (hs : 0 < size) (first last : Int) :
    (batches size first last).length = (last + 1 - first).toNat ⌈/⌉ size := by
  fun_induction batches size first last with
  | case1 first h ih =>
    rw [List.length_cons, ih, ceilDiv_step hs (by omega : 0 < (last + 1 - first).toNat)]
    congr 2
    omega
  | case2 first h =>
    rw [show (last + 1 - first).toNat = 0 by omega, zero_ceilDiv]
    rfl

/-- The first range starts where the whole does, and is cut only at its end. -/
theorem head?_batches {range : Int × Int} (h : range ∈ (batches size first last).head?) :
    range.1 = first ∧ first ≤ last := by
  unfold batches at h
  split at h
  · rename_i hlt
    simp only [List.head?_cons, Option.mem_some_iff] at h
    rw [← h]
    exact ⟨rfl, hlt.1⟩
  · cases h

theorem consecutive_batches (size : Nat) (first last : Int) :
    (batches size first last).IsChain fun range next => next.1 = range.2 + 1 := by
  fun_induction batches size first last with
  | case1 first h ih =>
    refine ih.cons fun next hnext => ?_
    obtain ⟨hfirst, hle⟩ := head?_batches hnext
    dsimp only
    omega
  | case2 first h => exact .nil

theorem disjoint_batches (size : Nat) (first last : Int) :
    (batches size first last).Pairwise fun range later => range.2 < later.1 := by
  fun_induction batches size first last with
  | case1 first h ih =>
    refine List.pairwise_cons.mpr ⟨fun later hlater => ?_, ih⟩
    have hle := (mem_batches hlater).1
    dsimp only
    omega
  | case2 first h => exact .nil

theorem bounded_batches {range : Int × Int} (h : range ∈ batches size first last) :
    range.2 + 1 - range.1 ≤ size := by
  fun_induction batches size first last with
  | case1 first hlt ih =>
    rcases List.mem_cons.mp h with rfl | h
    · dsimp only
      omega
    · exact ih h
  | case2 => cases h

theorem full_batches {range : Int × Int} (h : range ∈ (batches size first last).dropLast) :
    range.2 + 1 - range.1 = size := by
  fun_induction batches size first last with
  | case1 first hlt ih =>
    rcases hrest : batches size (first + size) last with _ | ⟨next, rest⟩
    · rw [hrest] at h
      cases h
    · rw [hrest] at h ih
      rcases List.mem_cons.mp h with rfl | h
      · have hle := (head?_batches (by rw [hrest]; rfl : next ∈ (batches size (first + size) last).head?)).2
        dsimp only
        omega
      · exact ih h
  | case2 => cases h

/-- **The batches of a range tile it.** -/
theorem tiles_batches (hs : 0 < size) (first last : Int) : Tiles size first last (batches size first last) where
  count := length_batches hs first last
  cover := batches_tile hs first last
  nonempty _ h := (mem_batches h).2.1
  consecutive := consecutive_batches size first last
  disjoint := disjoint_batches size first last
  bounded _ := bounded_batches
  full _ := full_batches

/-! ## The calls of a fetch -/

open Act Journal

variable {f : Fetcher} {s : Strategy} {retries : Nat} (hretries : f.client.repetitions = .ok retries)

section

include hretries

/-- **The batches make their calls one after another.** -/
theorem fetchBatches_makes (position : Nat) (progress? : Option Progress) (ranges : List (Int × Int)) :
    Makes (fun _ => Parts (BatchCalls f.target s) ranges) (f.fetchBatches s position progress? ranges) := by
  have hquiet := trail_silent.closed
  induction ranges generalizing position progress? with
  | nil =>
    have hnone : Leaves Silent (f.fetchBatches s position progress? []) := by
      unfold fetchBatches
      exact hquiet.ite (hquiet.bind hquiet.draw fun _ => hquiet.pure) hquiet.pure
    refine hnone.makes.imp fun _ cs hcs => ?_
    rw [hcs]
    exact .nil
  | cons range ranges ih =>
    obtain ⟨first, last⟩ := range
    unfold fetchBatches
    refine .after_silent hquiet.log fun _ => (fetchBatch_makes hretries (first, last)).bind fun results cs hcs => ?_
    have hrest : ∀ next? results, Makes (fun _ ds => Parts (BatchCalls f.target s) ((first, last) :: ranges) (cs ++ ds))
        (do return results ++ (← f.fetchBatches s (position + 1) next? ranges) : Act (List BlockResult)) :=
      fun next? results => ((ih _ next?).then_silent fun _ => hquiet.pure).imp fun _ ds hds => .cons hcs hds
    cases progress? with
    | none =>
      dsimp only [Option.map_none]
      split
      · exact .after_silent hquiet.log fun _ => hrest _ _
      · exact hrest _ _
    | some bar =>
      have hdrawn : ∀ p : Progress, Makes
          (fun _ ds => Parts (BatchCalls f.target s) ((first, last) :: ranges) (cs ++ ds))
          (p.redraw >>= fun _ => do return results ++ (← f.fetchBatches s (position + 1) (some p) ranges)) :=
        fun p => .after_silent (redraw_closed hquiet p) fun _ => hrest _ _
      dsimp only [Option.map_some]
      split
      · exact .after_silent hquiet.log fun _ => hdrawn _
      · exact hdrawn _

theorem fetchWith_makes (hsize : f.batchSize = .int size) (way : Capability) (started : Binary64) (a b : Int) :
    Makes (fun r cs => r.capability = way ∧
      Parts (BatchCalls f.target (.of way f.receiptFallback)) (batches size a b) cs)
      (f.fetchWith way started (.int a) (.int b)) := by
  have hquiet := trail_silent.closed
  have hall : ∀ progress?, Makes (fun r cs => r.capability = way ∧
      Parts (BatchCalls f.target (.of way f.receiptFallback)) (batches size a b) cs) (do
        let blocks ← f.fetchBatches (.of way f.receiptFallback) 0 progress? (batches size a b)
        let result := {
          records := mergedRecords blocks
          capability := way, blocks
          duration := (← Act.now).sub started : Fetched }
        logStatistics result
        return result) := by
    refine fun progress? => (fetchBatches_makes hretries _ _ _).bind fun blocks cs hcs => ?_
    refine .after_silent hquiet.now fun ended => .after_silent (logStatistics_closed hquiet _) fun _ => .pure ⟨rfl, ?_⟩
    rw [List.append_nil]
    exact hcs
  have hstart : ∀ {L : Fetched → List Request → Prop} {rest : Option Progress → Act Fetched},
      (∀ progress?, Makes L (rest progress?)) → Makes L (do
        checkWhole [.int a, .int b, .int size, f.concurrency]
        Act.logWritten .info none (f.rangeLine (.int a) (.int b))
        let progress? ←
          if f.showProgress then some <$> Progress.start (← blockCount (.int a) (.int b)) 30
          else Act.pure none
        rest progress?) := by
    intro L rest hrest
    refine .after_silent hquiet.lift fun _ => .after_silent hquiet.logWritten fun _ => ?_
    dsimp only
    split
    · refine .after_silent hquiet.lift fun count => .after_silent (hquiet.map ?_) hrest
      exact hquiet.bind hquiet.now fun _ => hquiet.pure
    · exact .after_silent hquiet.pure hrest
  unfold fetchWith
  rw [hsize]
  dsimp only
  split
  · split
    · exact .after_silent hquiet.log fun _ => hstart hall
    · exact .after_silent hquiet.log fun _ => hstart hall
  · exact hstart hall

end

/-! ## What is asked for -/

/-- A request for a block. -/
def asksForBlock (r : Request) : Bool := r.method == "eth_getBlockByNumber"

/-- A request for the traces of a range. -/
def asksForTraces (r : Request) : Bool := r.method == "trace_filter"

theorem blockRequest_inj {m n : Int} (hm : 0 ≤ m) (hn : 0 ≤ n) (h : blockRequest m = blockRequest n) : m = n := by
  have htext : (hexNumeral m : Text) = hexNumeral n := by
    simp only [blockRequest, Request.mk.injEq, Json.arr.injEq, List.cons.injEq, Json.str.injEq] at h
    exact h.2.1
  have hread := readInt?_hexNumeral hm
  rw [htext, readInt?_hexNumeral hn] at hread
  exact (Option.some.inj hread).symm

theorem asksForBlock_blockRequest (n : Int) : asksForBlock (blockRequest n) = true := rfl

theorem asksForTraces_blockRequest (n : Int) : asksForTraces (blockRequest n) = false := rfl

/-- What is asked for by other methods is no block and no trace of a range. -/
theorem filter_others (method : Text) (hblock : (method == "eth_getBlockByNumber") = false)
    (htraces : (method == "trace_filter") = false) {others : List Request} (h : ∀ r ∈ others, r.method = method) :
    others.filter asksForBlock = [] ∧ others.filter asksForTraces = [] := by
  simp only [List.filter_eq_nil_iff]
  exact ⟨fun r hr => by simp [asksForBlock, h r hr, hblock], fun r hr => by simp [asksForTraces, h r hr, htraces]⟩

variable {target : String} {range : Int × Int} {n : Int} {cs : List Request}

theorem BlockCalls.filter (h : BlockCalls s n cs) :
    cs.filter asksForBlock = [blockRequest n] ∧ cs.filter asksForTraces = [] := by
  obtain ⟨others, rfl, hothers⟩ := h
  have hnone : others.filter asksForBlock = [] ∧ others.filter asksForTraces = [] := by
    cases hs : s.blockMethod? with
    | none =>
      have hempty : others = [] := List.eq_nil_iff_forall_not_mem.mpr fun r hr => by simpa [hs] using hothers r hr
      rw [hempty]
      exact ⟨rfl, rfl⟩
    | some method =>
      refine filter_others method ?_ ?_ fun r hr => by simpa [hs, eq_comm] using hothers r hr
      all_goals cases s <;> cases hs <;> rfl
  rw [List.filter_cons, List.filter_cons, asksForBlock_blockRequest, asksForTraces_blockRequest, hnone.1, hnone.2]
  exact ⟨rfl, rfl⟩

theorem RangeCalls.filter (h : RangeCalls target range cs) :
    cs.filter asksForBlock = [] ∧ cs.filter asksForTraces = [rangeRequest target range] := by
  obtain ⟨lookups, rfl, hlookups⟩ := h
  have hnone := filter_others _ rfl rfl hlookups
  rw [List.filter_cons, List.filter_cons, hnone.1, hnone.2]
  exact ⟨rfl, rfl⟩

theorem BatchCalls.blocks (h : BatchCalls target s range cs) :
    (cs.filter asksForBlock).Perm ((blocksBetween range.1 range.2).map blockRequest) := by
  obtain ⟨ns, blocks, traced, rfl, hperm, hparts, htraced, huntraced⟩ := h
  have hnone : traced.filter asksForBlock = [] := by
    by_cases hs : s = .traceFilter
    · exact (htraced hs).filter.1
    · rw [huntraced hs]
      rfl
  rw [List.filter_append, hnone, List.append_nil, hparts.filter_eq fun n cs h => h.filter.1, ← List.map_eq_flatMap]
  exact hperm.map _

/-- The blocks of a range are asked for in some order, then its traces, and then transactions by their
hashes. -/
def TracedCalls (target : String) (range : Int × Int) (cs : List Request) : Prop :=
  ∃ (ns : List Int) (lookups : List Request), ns.Perm (blocksBetween range.1 range.2) ∧
    cs = ns.map blockRequest ++ rangeRequest target range :: lookups ∧
    ∀ r ∈ lookups, r.method = "eth_getTransactionByHash"

theorem BatchCalls.traced (h : BatchCalls target .traceFilter range cs) : TracedCalls target range cs := by
  obtain ⟨ns, blocks, traced, rfl, hperm, hparts, htraced, -⟩ := h
  obtain ⟨lookups, rfl, hlookups⟩ := htraced rfl
  have honly : ∀ n cs, BlockCalls .traceFilter n cs → cs = [blockRequest n] := by
    intro n cs h
    obtain ⟨others, rfl, hothers⟩ := h
    have hempty : others = [] := List.eq_nil_iff_forall_not_mem.mpr fun r hr => by cases hothers r hr
    rw [hempty]
  refine ⟨ns, lookups, hperm, ?_, hlookups⟩
  rw [hparts.relate (S := (· = ·)) rfl (fun _ _ _ _ hcs hds => by rw [hcs, hds]) honly, ← List.map_eq_flatMap]

theorem TracedCalls.traces (h : TracedCalls target range cs) :
    cs.filter asksForTraces = [rangeRequest target range] := by
  obtain ⟨ns, lookups, -, rfl, hlookups⟩ := h
  have hnone : (ns.map blockRequest).filter asksForTraces = [] :=
    List.filter_eq_nil_iff.mpr fun r hr => by
      obtain ⟨n, -, rfl⟩ := List.mem_map.mp hr
      rw [asksForTraces_blockRequest]
      exact Bool.false_ne_true
  rw [List.filter_append, hnone, List.nil_append]
  exact (show RangeCalls target range (rangeRequest target range :: lookups) from ⟨lookups, rfl, hlookups⟩).filter.2

theorem nodup_blockRequests {a : Int} (h0 : 0 ≤ a) (b : Int) : ((blocksBetween a b).map blockRequest).Nodup := by
  refine (nodup_blocksBetween a b).map_on fun m hm n hn h => ?_
  have hfirst := (mem_blocksBetween.mp hm).1
  have hsecond := (mem_blocksBetween.mp hn).1
  exact blockRequest_inj (by omega) (by omega) h

/-- **The batches tile the range.** If a fetch of a range returns, then what it did is to settle on the
way of tracing and then to make calls, of which those for blocks ask for each block of the range once
and for no other, in some order. Where ranges are traced, those for traces ask for ranges that tile the
whole, in their order; the calls are made range by range, and in each the traces are asked for after all
its blocks. What was posted again because the endpoint asked to slow down is one call. -/
theorem fetch_tiles {client : Client} {target : Json} {conc : Int} {detect fallback bar : Bool}
    {capability? : Option Capability} (hretries : client.repetitions = .ok retries)
    (hcreate : create client target (.int size) (.int conc) detect fallback capability? bar = .ok f) {a b : Int}
    (h0 : 0 ≤ a) (hab : a ≤ b) {o : Outside} {j j' : Journal} {r : Fetched}
    (hfetch : f.fetch (.int a) (.int b) o j = (.ok r, j')) :
    ∃ selecting fetching : Journal,
      f.capabilityFor (.int a) o (j ++ [.clock]) = (.ok r.capability, j ++ [.clock] ++ selecting) ∧
      j' = j ++ [.clock] ++ selecting ++ fetching ∧
      (fetching.calls.filter asksForBlock).Perm ((blocksBetween a b).map blockRequest) ∧
      ((blocksBetween a b).map blockRequest).Nodup ∧
      (r.capability = .traceFilter → ∃ ranges, Tiles size a b ranges ∧
        fetching.calls.filter asksForTraces = ranges.map (rangeRequest f.target) ∧
        Parts (TracedCalls f.target) ranges fetching.calls) := by
  obtain ⟨hsize, -, -, hfields⟩ := create_eq_ok_iff.mp hcreate
  have hclient : f.client.repetitions = .ok retries := client_of_create hcreate ▸ hretries
  have hbatch : f.batchSize = .int size := by rw [hfields]
  have hsettle : Leaves (fun _ => True) (f.capabilityFor (.int a)) := by
    have hall : Trail fun _ => True := ⟨trivial, fun _ _ => trivial, fun _ => trivial⟩
    refine capabilityFor_closed hall.closed (fun method params => ?_) _
    exact (Client.call_leaves hclient method params).imp fun _ _ => trivial
  rw [fetch_eq_settled h0 hab] at hfetch
  obtain ⟨started, j₁, hnow, hfetch⟩ := bind_apply_eq_ok_iff.mp hfetch
  cases hnow
  obtain ⟨way, j₂, hway, hfetch⟩ := bind_apply_eq_ok_iff.mp hfetch
  obtain ⟨selecting, hselecting, -⟩ := hsettle o (j ++ [.clock])
  rw [hway] at hselecting
  dsimp only at hselecting
  subst hselecting
  obtain ⟨fetching, rfl, -, rfl, hparts⟩ := fetchWith_makes hclient hbatch way _ a b o _ r j' hfetch
  have htiles : Tiles size a b (batches size a b) := tiles_batches (by omega) a b
  refine ⟨selecting, fetching, hway, rfl, ?_, nodup_blockRequests h0 b, fun htraced => ⟨_, htiles, ?_, ?_⟩⟩
  · refine (hparts.filter_perm fun _ _ h => h.blocks).trans (.of_eq ?_)
    rw [← htiles.cover, List.map_flatMap]
  · rw [htraced] at hparts
    rw [hparts.filter_eq fun _ _ h => h.traced.traces, ← List.map_eq_flatMap]
  · rw [htraced] at hparts
    obtain ⟨parts, hparts, hcalls⟩ := hparts
    exact ⟨parts, hparts.imp fun _ _ h => h.traced, hcalls⟩

/-- A fetcher for the sample that traces ranges of two blocks. -/
def tracingFetcher : Fetcher := { sampleFetcher .traceFilter with batchSize := .int 2 }

theorem tracingFetcher_created :
    create Sample.client (.str Sample.address) (.int (2 : Nat)) (.int 2) true false (some .traceFilter) false =
      .ok tracingFetcher :=
  create_eq_ok_iff.mpr ⟨by decide, by decide, Sample.parse_address, rfl⟩

theorem tracingFetcher_returns : ∃ r, (tracingFetcher.fetch (.int 1) (.int 3)
    (Sample.endpoint (fun _ => false) fun _ => false) []).1 = .ok r := by
  have hserved : Sample.chain.Served (Sample.endpoint (fun _ => false) fun _ => false) tracingFetcher.client
      (fun _ => false) 1 3 := Sample.served (by decide)
  have hranges : Sample.chain.TracesRanges (Sample.endpoint (fun _ => false) fun _ => false) tracingFetcher.client
      tracingFetcher.target 1 3 := Sample.tracesRanges (by decide)
  have hreturns := fetch_recovering rfl (sized_of_create tracingFetcher_created) (by decide) (by decide)
    hserved hranges fun _ _ _ hlost => by cases hlost
  obtain ⟨r, hr, -⟩ := hreturns.ensures rfl []
  exact ⟨r, hr⟩

/-- Three blocks are traced in two ranges. -/
theorem fetch_tiles_pair : Sample.client.repetitions = .ok (4 : Nat) ∧
    create Sample.client (.str Sample.address) (.int (2 : Nat)) (.int 2) true false (some .traceFilter) false =
      .ok tracingFetcher ∧ (0 : Int) ≤ 1 ∧ (1 : Int) ≤ 3 ∧
    ∃ r j', tracingFetcher.fetch (.int 1) (.int 3) (Sample.endpoint (fun _ => false) fun _ => false) [] = (.ok r, j') ∧
      r.capability = .traceFilter ∧ ∃ selecting fetching : Journal, j' = [.clock] ++ selecting ++ fetching ∧
        (fetching.calls.filter asksForBlock).Perm [blockRequest 1, blockRequest 2, blockRequest 3] ∧
        (fetching.calls.filter asksForTraces).length = 2 := by
  obtain ⟨r, hr⟩ := tracingFetcher_returns
  obtain ⟨selecting, fetching, hway, hj', hblocks, -, htraced⟩ :=
    fetch_tiles Client.repetitions_sample tracingFetcher_created (by decide) (by decide) (Prod.ext hr rfl)
  have hcap : r.capability = .traceFilter := by
    rw [capabilityFor_of_chosen rfl] at hway
    exact (Except.ok.inj (Prod.mk.inj hway).1).symm
  obtain ⟨ranges, htiles, htraces, -⟩ := htraced hcap
  refine ⟨rfl, tracingFetcher_created, by decide, by decide, r, _, Prod.ext hr rfl, hcap, selecting, fetching, hj',
    hblocks, ?_⟩
  rw [htraces, List.length_map, htiles.count, Nat.ceilDiv_eq_add_pred_div]
  rfl

end Fetcher
end AssertionReplay
