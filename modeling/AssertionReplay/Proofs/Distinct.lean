/-
Which transactions a fetch can return twice.

The records of a fetch are told apart by the names they stand under, and of
each name there is one. A name is the hash of its record except where a trace
of a range names a hash that no block of the batch has, and the endpoint
answers the look-up of it with another transaction. Then this transaction
counts a second time (`fetch_of_misnamedEndpoint`); otherwise the hashes of
the records differ (`fetched_hashes_distinct`).
-/
import AssertionReplay.Proofs.Agreement
import AssertionReplay.Proofs.Provenance

namespace AssertionReplay

open Text

namespace Fetcher

open Act

variable {f : Fetcher} {o : Outside}

/-- The record is what a hash that is not its own was looked up as, both of them in lower case. -/
def Misnamed (f : Fetcher) (o : Outside) (r : Record) : Prop :=
  ∃ hash past, lower hash = hash ∧ hash ≠ r.hash ∧ (f.resolve hash o past).1 = .ok (some r)

/-- The records have different hashes, unless ranges are traced and one of the two was misnamed. -/
def Apart (f : Fetcher) (o : Outside) (cap : Capability) (r r' : Record) : Prop :=
  r.hash = r'.hash → cap = .traceFilter ∧ (f.Misnamed o r ∨ f.Misnamed o r')

theorem Apart.symm {cap : Capability} {r r' : Record} (h : f.Apart o cap r r') : f.Apart o cap r' r :=
  fun heq => (h heq.symm).imp_right Or.symm

/-- A record stands under its own hash, unless it was misnamed. -/
theorem Origin.name {cap : Capability} {p : Text × Record}
    (h : f.Origin o (.of cap f.receiptFallback) p) : p.1 = p.2.hash ∨ cap = .traceFilter ∧ f.Misnamed o p.2 := by
  cases h with
  | fetched => exact .inl rfl
  | @lookedUp hash past r hs hlower hread =>
    by_cases heq : hash = r.hash
    · exact .inl heq
    · exact .inr ⟨Strategy.of_eq_traceFilter_iff.mp hs, hash, past, hlower, heq, hread⟩

theorem Origin.apart {cap : Capability} {p q : Text × Record} (hp : f.Origin o (.of cap f.receiptFallback) p)
    (hq : f.Origin o (.of cap f.receiptFallback) q) (hne : p.1 ≠ q.1) : f.Apart o cap p.2 q.2 := by
  intro heq
  rcases hp.name with hp | ⟨hcap, hp⟩
  · rcases hq.name with hq | ⟨hcap, hq⟩
    · exact absurd (hp.trans (heq.trans hq.symm)) hne
    · exact ⟨hcap, .inr hq⟩
  · exact ⟨hcap, .inl hp⟩

theorem mergedRecords_apart {cap : Capability} {blocks : List BlockResult}
    (h : ∀ b ∈ blocks, f.Originated o (.of cap f.receiptFallback) b.matched) :
    (mergedRecords blocks).Pairwise (f.Apart o cap) := by
  obtain ⟨m, hm, hnames, hmem⟩ := exists_firstOccurrences blocks
  have horigin : ∀ p ∈ m, f.Origin o (.of cap f.receiptFallback) p := by
    intro p hp
    obtain ⟨b, hb, hp⟩ := hmem p hp
    exact h b hb p hp
  have hfirst : (firstOccurrences blocks).Pairwise (f.Apart o cap) := by
    rw [hm, List.pairwise_map]
    rw [List.Nodup, List.pairwise_map] at hnames
    exact hnames.imp_of_mem fun hp hq hne => (horigin _ hp).apart (horigin _ hq) hne
  exact ((List.mergeSort_perm _ _).pairwise_iff Apart.symm).mpr hfirst

/-- **No transaction is returned twice, unless one was misnamed.** Two records of a fetch have different
hashes, whatever the endpoint answers, except where the traces of ranges are merged and one of the two
is what another hash was looked up as. -/
theorem fetched_hashes_distinct (f : Fetcher) (o : Outside) (first last : Json) :
    Yields o (f.fetch first last) fun r =>
      (r.records.Pairwise fun p q => p.hash = q.hash →
        r.capability = .traceFilter ∧ (f.Misnamed o p ∨ f.Misnamed o q)) ∧
      (r.capability ≠ .traceFilter → (r.records.map (·.hash)).Nodup) := by
  refine (fetch_origins f o first last).imp fun r h => ?_
  obtain ⟨hrecords, horigins⟩ := h
  have hapart : r.records.Pairwise (f.Apart o r.capability) := by
    rw [hrecords]
    exact mergedRecords_apart horigins
  refine ⟨hapart, fun hcap => ?_⟩
  rw [List.Nodup, List.pairwise_map]
  refine hapart.imp ?_
  intro p q h heq
  exact hcap (h heq).1

/-! ## A transaction that is returned twice -/

/-- The only transaction of a block. -/
def listed : Mined := Sample.mined "0xbb" 1 0 true

/-- A transaction that is in no block, but in a trace. -/
def unlisted : Mined := Sample.mined "0xaa" 1 1 true

theorem listed_at : listed.At 1 0 := Sample.mined_at rfl (by decide) rfl

theorem unlisted_at : unlisted.At 1 1 := Sample.mined_at rfl (by decide) rfl

/-- The trace of a range names the transaction that is in no block. -/
theorem batchHashes_unlisted {Q : Fault → Journal → Prop} (hgets : Sample.client.Gets o "trace_filter"
      (filterParams Sample.address 1 1) (.arr [Sample.trace unlisted])) : Act.Ends o
    (Strategy.traceFilter.batchHashes Sample.client (.str Sample.address) (.int 1) (.int 1)) (· = ["0xaa"]) Q := by
  have hhash : Strategy.traceHash? (.str Sample.address) (Sample.trace unlisted) = .ok (some "0xaa") := by
    rw [Strategy.traceHash?_eq unlisted_at (.inr ⟨_, rfl⟩) ⟨⟨"0xaa", rfl, rfl⟩, rfl⟩, Sample.names_address]
    rfl
  unfold Strategy.batchHashes
  dsimp only
  rw [Client.traceFilter_int]
  refine .bind hgets.orElse.attemptOwn_ok ?_
  intro _ houtcome
  obtain ⟨_, rfl, rfl⟩ := houtcome
  rw [Json.orElse_arr]
  dsimp only
  rw [Strategy.traceHashes, hhash]
  exact .pure rfl

/-- A batch of one block, by what is read of the block, and by where the one hash is put that the trace
names. -/
theorem fetchBatch_of_placed {read result : BlockResult} {Q : Fault → Journal → Prop}
    (hblock : Act.Ensures o ((sampleFetcher .traceFilter).fetchBlock .traceFilter 1) (· = read))
    (hgets : Sample.client.Gets o "trace_filter" (filterParams Sample.address 1 1) (.arr [Sample.trace unlisted]))
    (hplace : Act.Ensures o ((sampleFetcher .traceFilter).placeHash [read] "0xaa") (· = [result])) :
    Act.Ends o ((sampleFetcher .traceFilter).fetchBatch .traceFilter 1 1) (· = [result]) Q := by
  have hblocks : Act.Ends o ((sampleFetcher .traceFilter).fetchBlocks .traceFilter (blocksBetween 1 1))
      (· = [read]) Q := by
    refine (fetchBlocks_ends (R := fun _ b => b = read) fun n hn => ?_).imp fun results h => forall₂_map_eq.mp h
    obtain ⟨hfirst, hlast⟩ := mem_blocksBetween.mp hn
    obtain rfl : n = 1 := by omega
    exact hblock.ends
  have hhashes : Act.Ends o (Strategy.traceFilter.batchHashes (sampleFetcher .traceFilter).client
      (.str (sampleFetcher .traceFilter).target) (.int 1) (.int 1)).attempt (· = .ok ["0xaa"]) Q :=
    .attempt ((batchHashes_unlisted hgets).imp fun _ h => congrArg _ h)
  have hsorted : Text.sorted [("0xaa" : Text)] = [("0xaa" : Text)] := List.mergeSort_singleton _
  unfold fetchBatch
  refine .bind_eq hblocks ?_
  rw [if_pos (beq_self_eq_true _)]
  unfold mergeTrace
  refine .bind_eq hhashes ?_
  dsimp only
  rw [hsorted]
  refine .bind_eq hplace.ends ?_
  exact .pure rfl

theorem fetch_of_placed {read result : BlockResult}
    (hblock : Act.Ensures o ((sampleFetcher .traceFilter).fetchBlock .traceFilter 1) (· = read))
    (hgets : Sample.client.Gets o "trace_filter" (filterParams Sample.address 1 1) (.arr [Sample.trace unlisted]))
    (hplace : Act.Ensures o ((sampleFetcher .traceFilter).placeHash [read] "0xaa") (· = [result])) (j : Journal) :
    ∃ r, ((sampleFetcher .traceFilter).fetch (.int 1) (.int 1) o j).1 = .ok r ∧ r.blocks = [result] ∧
      r.records = mergedRecords [result] := by
  have hends : Act.Ends o ((sampleFetcher .traceFilter).fetch (.int 1) (.int 1))
      (Fetched.Covers (fun _ b => b = result) 1 1) ((sampleFetcher .traceFilter).Undrawn o 1 1) := by
    refine fetch_ends rfl (sized_of_create (sampleFetcher_created _)) (by decide) (Int.le_refl 1) (fun _ _ h => h) ?_
    intro first last hfirst hle hlast
    obtain rfl : first = 1 := by omega
    obtain rfl : last = 1 := by omega
    refine (fetchBatch_of_placed hblock hgets hplace).imp ?_
    intro results h
    rw [h]
    exact .cons rfl .nil
  obtain ⟨r, hr, hblocks, hrecords⟩ := (returns_of_ends hends).ensures rfl j
  have hall : r.blocks = [result] := forall₂_map_eq.mp hblocks
  exact ⟨r, hr, hall, by rw [hrecords, hall]⟩

def listedBlock : Json := .obj [("number", .str (hexNumeral 1)), ("transactions", .arr [listed.object])]

/-- Whatever hash is looked up, the answer is the transaction of the block. -/
def misnamedEndpoint : Outside := Client.answering fun request =>
  if request.method == "eth_getBlockByNumber" then some listedBlock
  else if request.method == "trace_filter" then some (.arr [Sample.trace unlisted])
  else if request.method == "eth_getTransactionByHash" then some listed.object
  else none

/-- The result of the block before the trace is merged. -/
def listedResult : BlockResult where
  block := 1
  ok := true
  transactions := [listed.object]
  matched := [listed.entry]

theorem fetchBlock_misnamed : Act.Ensures misnamedEndpoint ((sampleFetcher .traceFilter).fetchBlock .traceFilter 1)
    (· = listedResult) := by
  have hat : ∀ t ∈ [listed], ∃ i, t.At 1 i := by simpa using ⟨0, listed_at⟩
  have hcalls : entries (Mined.calls Sample.address) [listed] = [listed.entry] := by
    simp [entries, listed, Sample.calls_mined]
  have hdirect : directCalls Sample.address 1 [] [listed.object] = .ok [listed.entry] := by
    rw [← hcalls]
    exact directCalls_eq hat (by simp)
  have hread : readBlock Sample.address 1 listedBlock = .ok ⟨1, [listed.object], [listed.entry]⟩ :=
    readBlock_ok (by decide) rfl rfl (by simpa using listed_at.isObject) hdirect
  have hgets : Sample.client.Gets misnamedEndpoint "eth_getBlockByNumber" (blockParams 1) listedBlock :=
    Client.gets_answering (k := 4) rfl rfl
  intro past
  obtain ⟨_, hc, rfl⟩ := contentOf_ensures (f := sampleFetcher .traceFilter) rfl hgets hread past
  rw [fetchBlock_of_content .traceFilter (Prod.ext hc rfl)]
  exact ⟨_, rfl, rfl⟩

/-- What the batch comes to: the same record under two names. -/
def doubledResult : BlockResult :=
  { listedResult with matched := [("0xbb", listed.record), ("0xaa", listed.record)] }

/-- The hash is in no block that was fetched, so it is looked up. -/
theorem placeHash_misnamed : Act.Ends misnamedEndpoint
    ((sampleFetcher .traceFilter).placeHash [listedResult] "0xaa") (· = [doubledResult]) fun _ _ => False := by
  have hresolve : Act.Ends misnamedEndpoint ((sampleFetcher .traceFilter).resolve "0xaa")
      (· = some listed.record) fun _ _ => False := by
    refine resolve_gets (v := listed.object) ?_ listed_at.isGiven listed_at.record_by_hash
    exact Client.gets_answering (k := 4) rfl rfl
  exact placeHash_resolved (by decide) rfl hresolve

/-- One transaction is returned twice, if the look-up of another hash answers it. -/
theorem fetch_of_misnamedEndpoint :
    create Sample.client (.str Sample.address) (.int 1) (.int 2) true false (some .traceFilter) false =
        .ok (sampleFetcher .traceFilter) ∧
      ∀ j, ∃ r, ((sampleFetcher .traceFilter).fetch (.int 1) (.int 1) misnamedEndpoint j).1 = .ok r ∧
        r.records = [listed.record, listed.record] := by
  refine ⟨sampleFetcher_created .traceFilter, fun j => ?_⟩
  have hgets : Sample.client.Gets misnamedEndpoint "trace_filter" (filterParams Sample.address 1 1)
      (.arr [Sample.trace unlisted]) := Client.gets_answering (k := 4) rfl rfl
  obtain ⟨r, hr, -, hrecords⟩ := fetch_of_placed fetchBlock_misnamed hgets placeHash_misnamed.ensures j
  refine ⟨r, hr, ?_⟩
  rw [hrecords]
  -- The two records stand at the same place, so that sorting keeps them as they are.
  have hsorted : [listed.record, listed.record].Pairwise fun p q => p.atOrBefore q = true := by decide
  exact List.mergeSort_of_pairwise hsorted

end Fetcher
end AssertionReplay
