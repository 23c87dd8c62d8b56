/-
What the summary of a block counts.

A summary takes the matched transactions of a block from all of its
transactions. What was matched among the transactions that were read is some of
them, each once (`Accounts.own_le`). But a hash that a trace of a range names
and no block has is looked up, and the record is put into the result of its
block, whether or not this block was read, and without being one of its
transactions. So a line adds up exactly if there are not more of these than
transactions left to match (`block_summaries_counted`).
-/
import AssertionReplay.Fetch.Summary
import AssertionReplay.Proofs.Distinct
import AssertionReplay.Proofs.Placement

namespace AssertionReplay

open Text

/-! ## Lines -/

/-- The numbers of the line are no less than zero, and the first two of them add up to the third. -/
def BlockCount.AddsUp (c : BlockCount) : Prop :=
  0 ≤ c.triggered ∧ 0 ≤ c.total - c.triggered ∧ 0 ≤ c.total ∧ c.triggered + (c.total - c.triggered) = c.total

theorem BlockResult.addsUp_iff {b : BlockResult} : b.count.AddsUp ↔ b.matched.length ≤ b.transactions.length := by
  simp only [BlockCount.AddsUp, BlockResult.count]
  omega

/-- Of blocks in ascending order, the summary has a line for each, in this order. -/
theorem BlockResult.summaries_eq {blocks : List BlockResult} (h : (blocks.map (·.block)).Pairwise (· < ·)) :
    BlockResult.summaries blocks = "BLOCK_SUMMARY_FORMATTED:START" ::
      (blocks.map (·.count.line) ++ ["BLOCK_SUMMARY_FORMATTED:END"]) := by
  have hsorted : (blocks.map BlockResult.count).Pairwise fun x y => decide (x.block ≤ y.block) = true := by
    rw [List.pairwise_map] at h ⊢
    exact h.imp fun hlt => decide_eq_true (Int.le_of_lt hlt)
  rw [BlockResult.summaries, BlockCount.lines, List.mergeSort_of_pairwise hsorted, List.map_map]
  rfl

/-! ## Names -/

namespace OrderedMap

theorem nodup_names_insert {m : OrderedMap α} (h : (names m).Nodup) (name : Text) (v : α) :
    (names (m.insert name v)).Nodup := by
  rw [names_insert]
  split
  · exact h
  · rename_i hnew
    rw [← List.concat_eq_append]
    exact h.concat hnew

end OrderedMap

namespace Fetcher

open Act OrderedMap

variable {o : Outside} {f : Fetcher} {s : Strategy} {n : Int} {blocks : List Int} {results : List BlockResult}

/-- The hashes of the transactions that have one, in lower case. -/
def hashesOf (transactions : List Json) : List Text :=
  transactions.filterMap fun transaction =>
    match transaction.member? "hash" with
    | some (.str hash) => some (lower hash)
    | _ => none

theorem mem_hashesOf {transactions : List Json} {p : Text × Json} (hp : Hashed p) (hmem : p.2 ∈ transactions) :
    p.1 ∈ hashesOf transactions := by
  obtain ⟨hash, hhash, hlower⟩ := hp
  exact List.mem_filterMap.mpr ⟨p.2, hmem, by rw [hhash]; exact congrArg some hlower⟩

/-- A record can only be read from a transaction that has a hash. -/
theorem hash_mem_hashesOf {transactions : List Json} {t : Json} {q : Quantity} {r : Record}
    (h : Record.ofTransaction t (some q) = .ok r) (hmem : t ∈ transactions) : r.hash ∈ hashesOf transactions := by
  obtain ⟨members, rfl⟩ := Record.ofTransaction_obj h
  obtain ⟨hash, hhash, heq⟩ := (Record.ofTransaction_eq_ok_iff.mp h).hash
  exact mem_hashesOf (p := (r.hash, _)) ⟨hash, hhash, heq.symm⟩ hmem

/-- The records stand under different names, each of them the hash of one of the transactions. -/
structure Lists (m : OrderedMap Record) (transactions : List Json) : Prop where
  names : (OrderedMap.names m).Nodup
  known : ∀ p ∈ m, p.1 ∈ hashesOf transactions

theorem lists_direct {c : Content} (h : c.Matched f.target) : Lists c.direct c.transactions where
  names := directCalls_invariant (I := fun m => (names m).Nodup)
    (fun _ _ _ _ _ _ _ _ hm => nodup_names_insert hm _ _) (by simp [OrderedMap.names]) h
  known := directCalls_each (fun _ ht _ _ _ _ hr => hash_mem_hashesOf hr ht) (by simp) h

theorem Lists.addInner {m : OrderedMap Record} {transactions : List Json} (h : Lists m transactions)
    {inner : List (Text × Json)} (hinner : ∀ p ∈ inner, Hashed p ∧ p.2 ∈ transactions) :
    Yields o (Fetcher.addInner n m inner) fun m => Lists m transactions := by
  have hknown : Yields o (Fetcher.addInner n m inner) fun m => ∀ p ∈ m, p.1 ∈ hashesOf transactions :=
    addInner_each h.known fun p hp _ _ => mem_hashesOf (hinner p hp).1 (hinner p hp).2
  have hnames : Yields o (Fetcher.addInner n m inner) fun m => (OrderedMap.names m).Nodup :=
    addInner_invariant (I := fun m => (OrderedMap.names m).Nodup)
      (fun _ _ _ _ _ _ hm => nodup_names_insert hm _ _) h.names
  exact (Ends.and_yields hnames hknown).imp fun _ h => ⟨h.1, h.2⟩

/-! ## The results of a batch -/

/-- Where the traces of a range are merged, the name was looked up as the record, which is one of the
block. -/
structure LookedUp (f : Fetcher) (o : Outside) (s : Strategy) (n : Int) (p : Text × Record) : Prop where
  way : s = .traceFilter
  lower : lower p.1 = p.1
  block : p.2.block = .int n
  answer : ∃ past, (f.resolve p.1 o past).1 = .ok (some p.2)

/-- What is known of a result: nothing is left of a block that could not be read, and a record stands
under the hash of a transaction of the block, or was looked up. -/
structure Accounts (f : Fetcher) (o : Outside) (s : Strategy) (n : Int) (b : BlockResult) : Prop where
  block : b.block = n
  lost : b.ok = false → b.transactions = []
  names : (OrderedMap.names b.matched).Nodup
  known : ∀ p ∈ b.matched, p.1 ∈ hashesOf b.transactions ∨ f.LookedUp o s n p

theorem accounts_failed : f.Accounts o s n (.failed n) where
  block := rfl
  lost := fun _ => rfl
  names := List.nodup_nil
  known := fun _ h => by cases h

theorem fetchBlock_accounts (n : Int) : Yields o (f.fetchBlock s n) (f.Accounts o s n) := by
  unfold fetchBlock
  refine .bind (contentOf_matched n).attempt fun read hread => ?_
  rcases read with e | _ | c
  · exact .after_logFault (.pure accounts_failed)
  · exact .pure accounts_failed
  · have hdirect := lists_direct (hread _ rfl c rfl)
    refine .bind (innerCalls_picks _ _) fun inner hinner => ?_
    refine .bind (hdirect.addInner hinner) fun matched hmatched => ?_
    have haccounts : f.Accounts o s n { block := n, ok := true, transactions := c.transactions, matched } :=
      ⟨rfl, nofun, hmatched.names, fun p hp => .inl (hmatched.known p hp)⟩
    split
    · exact .after_logWritten (.pure haccounts)
    · exact .pure haccounts

/-- A record that is put into the result of a block must be known there. -/
theorem putRecord_accounts (h : List.Forall₂ (f.Accounts o s) blocks results) {hash : Text} {r : Record}
    (hr : ∀ b ∈ results, b.block = n → hash ∈ hashesOf b.transactions ∨ f.LookedUp o s n (hash, r)) :
    List.Forall₂ (f.Accounts o s) blocks (putRecord results n hash r) := by
  rw [putRecord, List.forall₂_map_right_iff]
  refine forall₂_imp_of_mem h fun b hb m hm => ?_
  split
  · rename_i heq
    have hn : b.block = n := beq_iff_eq.mp heq
    obtain rfl : n = m := hn.symm.trans hm.block
    exact ⟨hm.block, hm.lost, nodup_names_insert hm.names hash r, insert_all hm.known (hr b hb hn)⟩
  · exact hm

theorem fetchedUnder?_mem {hash : Text} {p : Int × Json} (h : fetchedUnder? hash results = some p) :
    ∃ b ∈ results, b.block = p.1 ∧ p.2 ∈ b.transactions := by
  have hmem := List.mem_of_find?_eq_some h
  rw [List.mem_reverse, List.mem_flatMap] at hmem
  obtain ⟨b, hb, hp⟩ := hmem
  obtain ⟨transaction, htransaction, rfl⟩ := List.mem_map.mp hp
  exact ⟨b, hb, rfl, htransaction⟩

theorem map_block_of_accounts (h : List.Forall₂ (f.Accounts o s) blocks results) : results.map (·.block) = blocks :=
  (forall₂_map_eq.mp (h.flip.imp fun _ _ hb => hb.block.symm)).symm

/-- **Placing a hash** keeps what is known of the results, if no two of them are for one block. -/
theorem placeHash_accounts (hs : s = .traceFilter) (hblocks : blocks.Nodup)
    (h : List.Forall₂ (f.Accounts o s) blocks results) {hash : Text} (hlower : lower hash = hash) :
    Yields o (f.placeHash results hash) (List.Forall₂ (f.Accounts o s) blocks) := by
  unfold placeHash
  split
  · exact .pure h
  · split
    · rename_i m transaction hfound
      split
      · refine .pure (putRecord_accounts h fun b hb hm => .inl ?_)
        obtain ⟨b', hb', hm', hmem⟩ := fetchedUnder?_mem hfound
        rw [← map_block_of_accounts h] at hblocks
        obtain rfl : b = b' := List.inj_on_of_nodup_map hblocks hb hb' (hm.trans hm'.symm)
        exact mem_hashesOf (fetchedUnder?_hashed hfound) hmem
      · exact .after_logFault (.pure h)
    · refine .bind (Ends.and_yields Yields.returned (resolve_from hash)) fun found hfound => ?_
      obtain ⟨hreturned, hread⟩ := hfound
      cases found with
      | some r => exact .pure (putRecord_accounts h fun _ _ _ => .inr ⟨hs, hlower, (hread r rfl).block_int, hreturned⟩)
      | none => exact .pure h

theorem fetchBatch_accounts (first last : Int) :
    Yields o (f.fetchBatch s first last) (List.Forall₂ (f.Accounts o s) (blocksBetween first last)) := by
  unfold fetchBatch
  refine .bind (fetchBlocks_ends fun n _ => fetchBlock_accounts n) fun results hresults => ?_
  split
  · rename_i hs
    exact mergeTrace_preserves (fun _ _ h hlower =>
      placeHash_accounts (beq_iff_eq.mp hs) (nodup_blocksBetween first last) h hlower) hresults first last
  · exact .pure hresults

/-! ## What is counted -/

end Fetcher

namespace BlockResult

open Fetcher

/-- The records that stand under the hash of a transaction that was read with the block. -/
def own (b : BlockResult) : OrderedMap Record := b.matched.filter fun p => (hashesOf b.transactions).contains p.1

/-- The records that stand under no such hash. -/
def strangers (b : BlockResult) : OrderedMap Record :=
  b.matched.filter fun p => !(hashesOf b.transactions).contains p.1

theorem length_own_add_strangers (b : BlockResult) : b.own.length + b.strangers.length = b.matched.length :=
  (List.length_eq_length_filter_add fun p : Text × Record => (hashesOf b.transactions).contains p.1).symm

theorem addsUp_iff_strangers {b : BlockResult} :
    b.count.AddsUp ↔ b.own.length + b.strangers.length ≤ b.transactions.length := by
  rw [addsUp_iff, length_own_add_strangers]

end BlockResult

namespace Fetcher

open Act OrderedMap

variable {o : Outside} {f : Fetcher} {s : Strategy} {n : Int} {b : BlockResult}

/-- **What was matched among the transactions of a block is some of them, each once.** -/
theorem Accounts.own_le (h : f.Accounts o s n b) : b.own.length ≤ b.transactions.length := by
  have hnodup : (OrderedMap.names b.own).Nodup := h.names.sublist (List.filter_sublist.map _)
  have hsubset : OrderedMap.names b.own ⊆ hashesOf b.transactions := by
    intro name hname
    obtain ⟨p, hp, rfl⟩ := List.mem_map.mp hname
    simpa using (List.mem_filter.mp hp).2
  calc b.own.length = (OrderedMap.names b.own).length := (List.length_map _).symm
    _ ≤ (hashesOf b.transactions).length := (List.subperm_of_subset hnodup hsubset).length_le
    _ ≤ b.transactions.length := List.length_filterMap_le _ _

theorem Accounts.stranger (h : f.Accounts o s n b) {p : Text × Record} (hp : p ∈ b.strangers) : f.LookedUp o s n p := by
  obtain ⟨hmem, hstrange⟩ := List.mem_filter.mp hp
  exact (h.known p hmem).resolve_left (by simpa using hstrange)

/-- Without merging the traces of ranges, there are no strangers. -/
theorem Accounts.addsUp (h : f.Accounts o s n b) (hs : s ≠ .traceFilter) : b.count.AddsUp := by
  have hnone : b.strangers = [] := List.eq_nil_iff_forall_not_mem.mpr fun p hp => hs (h.stranger hp).way
  rw [BlockResult.addsUp_iff_strangers, hnone]
  exact h.own_le

/-- The line of a block that could not be read adds up exactly if nothing was looked up for it. -/
theorem Accounts.addsUp_lost (h : f.Accounts o s n b) (hlost : b.ok = false) :
    b.count.AddsUp ↔ b.strangers = [] := by
  have hown := h.own_le
  rw [BlockResult.addsUp_iff_strangers, ← List.length_eq_zero_iff]
  rw [h.lost hlost, List.length_nil] at hown ⊢
  omega

/-! ## A fetch -/

theorem fetch_bounds (a b : Int) : Yields o (f.fetch (.int a) (.int b)) fun _ => 0 ≤ a ∧ a ≤ b := by
  rcases hrange : rangeOf (.int a) (.int b) with e | p
  · unfold fetch run
    rw [hrange]
    exact fun _ => trivial
  · obtain ⟨h0, hab, -⟩ := bounds_of_rangeOf hrange
    exact Ends.any.imp fun _ _ => ⟨h0, hab⟩

/-- **Summaries and what they count.** Whatever the endpoint answers, and whichever way of tracing is
settled on, the summary of a fetch that returns has one line for each block of the range, in ascending
order. The line of a block adds up exactly if its strangers are no more than the transactions left when
its own ones are taken, and these are never more than there are. A stranger is what a hash was looked up
as, where the traces of ranges are merged. So all lines add up on every other way of tracing, and the
line of a block that could not be read does if nothing was looked up for it, and only then. -/
theorem block_summaries_counted {client : Client} {target : Json} {size conc : Int} {detect fallback bar : Bool}
    {capability? : Option Capability}
    (hf : create client target (.int size) (.int conc) detect fallback capability? bar = .ok f) (a b : Int) :
    Yields o (f.fetch (.int a) (.int b)) fun r =>
      r.blocks.map (·.block) = blocksBetween a b ∧
      BlockResult.summaries r.blocks = "BLOCK_SUMMARY_FORMATTED:START" ::
        (r.blocks.map (·.count.line) ++ ["BLOCK_SUMMARY_FORMATTED:END"]) ∧
      ∀ block ∈ r.blocks,
        (block.count.AddsUp ↔ block.own.length + block.strangers.length ≤ block.transactions.length) ∧
        block.own.length ≤ block.transactions.length ∧
        (∀ p ∈ block.strangers, f.LookedUp o (.of r.capability f.receiptFallback) block.block p) ∧
        (r.capability ≠ .traceFilter → block.count.AddsUp) ∧
        (block.ok = false → (block.count.AddsUp ↔ block.strangers = [])) := by
  obtain ⟨hsize, -, -, hfields⟩ := create_eq_ok_iff.mp hf
  have hs : f.batchSize.index? = some size := by rw [hfields]; rfl
  by_cases hbounds : 0 ≤ a ∧ a ≤ b
  · have hblocks := fetch_blocks (o := o) hs hsize hbounds.1 hbounds.2
    have haccounts := fetch_yields
      (P := fun cap block => f.Accounts o (.of cap f.receiptFallback) block.block block) f o (.int a) (.int b)
      fun cap first last => (fetchBatch_accounts first last).imp fun results h block hblock => by
        obtain ⟨n, -, hn⟩ := exists_of_forall₂ h.flip hblock
        rwa [hn.block]
    refine (Ends.and_yields hblocks haccounts).imp fun r h => ?_
    obtain ⟨hrange, -, haccounts⟩ := h
    refine ⟨hrange, BlockResult.summaries_eq (by rw [hrange]; exact pairwise_blocksBetween a b), fun block hblock => ?_⟩
    have h := haccounts block hblock
    refine ⟨BlockResult.addsUp_iff_strangers, h.own_le, fun _ hp => h.stranger hp, fun hcap => ?_, h.addsUp_lost⟩
    exact h.addsUp (mt Strategy.of_eq_traceFilter_iff.mp hcap)
  · exact (fetch_bounds a b).imp fun _ h => absurd h hbounds

/-- The only block is never answered, and what a trace of the range names is looked up as one of it. -/
def lostEndpoint : Outside := Client.answering fun request =>
  if request.method == "trace_filter" then some (.arr [Sample.trace unlisted])
  else if request.method == "eth_getTransactionByHash" then some unlisted.object
  else none

/-- Of one block that is never answered, the line adds up only if nothing was looked up for it. -/
theorem block_summaries_counted_lost :
    create Sample.client (.str Sample.address) (.int 1) (.int 2) true false (some .traceFilter) false =
        .ok (sampleFetcher .traceFilter) ∧
      Yields lostEndpoint ((sampleFetcher .traceFilter).fetch (.int 1) (.int 1)) fun r =>
        r.blocks.map (·.block) = [1] ∧
          ∀ block ∈ r.blocks, block.ok = false → (block.count.AddsUp ↔ block.strangers = []) := by
  refine ⟨sampleFetcher_created .traceFilter, ?_⟩
  refine (block_summaries_counted (sampleFetcher_created .traceFilter) 1 1).imp fun r h => ?_
  obtain ⟨hblocks, -, hlines⟩ := h
  refine ⟨hblocks, fun block hblock => ?_⟩
  obtain ⟨-, -, -, -, hlost⟩ := hlines block hblock
  exact hlost

/-- What the look-up leaves of the block. -/
def lostResult : BlockResult := { BlockResult.failed 1 with matched := [unlisted.entry] }

theorem fetchBlock_lostEndpoint : Ensures lostEndpoint ((sampleFetcher .traceFilter).fetchBlock .traceFilter 1)
    (· = .failed 1) := by
  have hfails : Sample.client.Fails lostEndpoint "eth_getBlockByNumber" (blockParams 1) :=
    Client.fails_answering (k := 4) rfl rfl
  exact fun past => ⟨_, fetchBlock_of_misses (f := sampleFetcher .traceFilter) hfails.misses past, rfl⟩

theorem placeHash_lostEndpoint : Ensures lostEndpoint
    ((sampleFetcher .traceFilter).placeHash [BlockResult.failed 1] "0xaa") (· = [lostResult]) := by
  have hresolve : Ends lostEndpoint ((sampleFetcher .traceFilter).resolve "0xaa") (· = some unlisted.record)
      fun _ _ => False := by
    refine resolve_gets (v := unlisted.object) ?_ unlisted_at.isGiven unlisted_at.record_by_hash
    exact Client.gets_answering (k := 4) rfl rfl
  exact (placeHash_resolved (by decide) rfl hresolve).ensures

/-- **A line need not add up.** Of the block that could not be read one of no transactions counts as
triggered, and so one less than none as not triggered. -/
theorem fetch_of_lostEndpoint :
    create Sample.client (.str Sample.address) (.int 1) (.int 2) true false (some .traceFilter) false =
        .ok (sampleFetcher .traceFilter) ∧
      ∀ j, ∃ r, ((sampleFetcher .traceFilter).fetch (.int 1) (.int 1) lostEndpoint j).1 = .ok r ∧
        BlockResult.summaries r.blocks = ["BLOCK_SUMMARY_FORMATTED:START",
          "=== BLOCK 1 SUMMARY | Triggered: 1 | Not Triggered: -1 | Total: 0 ===", "BLOCK_SUMMARY_FORMATTED:END"] ∧
        ∃ block ∈ r.blocks, ¬ block.count.AddsUp := by
  refine ⟨sampleFetcher_created .traceFilter, fun j => ?_⟩
  have hgets : Sample.client.Gets lostEndpoint "trace_filter" (filterParams Sample.address 1 1)
      (.arr [Sample.trace unlisted]) := Client.gets_answering (k := 4) rfl rfl
  obtain ⟨r, hr, hblocks, -⟩ := fetch_of_placed fetchBlock_lostEndpoint hgets placeHash_lostEndpoint j
  refine ⟨r, hr, ?_, lostResult, by simp [hblocks], fun h => ?_⟩
  · have hline : lostResult.count.line = "=== BLOCK 1 SUMMARY | Triggered: 1 | Not Triggered: -1 | Total: 0 ===" := by
      rfl
    rw [hblocks, BlockResult.summaries_eq (List.pairwise_singleton _ _), List.map_singleton, hline]
    rfl
  · exact absurd (BlockResult.addsUp_iff.mp h) (by decide)

end Fetcher
end AssertionReplay
