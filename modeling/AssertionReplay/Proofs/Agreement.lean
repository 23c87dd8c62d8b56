/-
What a fetch of a chain returns.

With every way of tracing, a fetch of a chain from a truthful endpoint returns
the same records: those of the transactions that call the target, directly or
at any depth (`strategies_agree`). The trace of a range even makes up for
blocks that are lost (`fetch_recovers`); block by block, what is lost or missed
is left out, and nothing more (`fetch_degrades`). Nothing depends on how the
range is cut into batches, or on how the workers share a batch.
-/
import AssertionReplay.Proofs.Recovery

namespace AssertionReplay

open Text

namespace Strategy

theorem of_eq_traceFilter_iff {cap : Capability} {fallback : Bool} :
    Strategy.of cap fallback = .traceFilter ↔ cap = .traceFilter := by
  cases cap with
  | directCallsOnly => cases fallback <;> simp [Strategy.of]
  | _ => simp [Strategy.of]

end Strategy

namespace Fetcher

variable {o : Outside} {f : Fetcher} {s : Strategy} {chain : Chain} {touching : Int → Mined → Bool}
  {lost : Int → Bool}

theorem blocksFailed_eq {a b : Int} {r : Fetched}
    (h : Matching chain touching lost (blocksBetween a b) r.blocks) :
    r.blocksFailed = (List.range (b + 1 - a).toNat).countP fun i : Nat => lost (a + i) := by
  have hcount : ∀ {blocks : List Int} {results : List BlockResult},
      Matching chain touching lost blocks results → (results.countP fun r => !r.ok) = blocks.countP lost := by
    intro blocks results h
    induction h with
    | nil => rfl
    | cons hr _ ih => rw [List.countP_cons, List.countP_cons, ih, hr.ok, Bool.not_not]
  rw [Fetched.blocksFailed, hcount h, blocksBetween_eq, List.countP_map]
  rfl

/-- If each batch holds what touches in its blocks, the fetch returns the records of the chain. -/
theorem fetch_records {cap : Capability} {size : Int} (hf : f.Sized size)
    {a b : Int} (hway : Act.Ensures o (f.capabilityFor (.int a)) (· = cap)) (h0 : 0 ≤ a) (hab : a ≤ b)
    (hbatch : ∀ first last, a ≤ first → first ≤ last → last ≤ b →
      Act.Ends o (f.fetchBatch (.of cap f.receiptFallback) first last)
        (Matching chain touching lost (blocksBetween first last)) (f.Undrawn o a b)) :
    f.Returns o a b fun r => r.records = chain.records touching a b ∧
      Matching chain touching lost (blocksBetween a b) r.blocks := by
  refine returns_of_ends ((fetch_ends_settled hf hway h0 hab (fun _ _ h => h) hbatch).imp fun r h => ?_)
  obtain ⟨hblocks, hrecords⟩ := h
  exact ⟨hrecords.trans (Chain.mergedRecords_eq hblocks), hblocks⟩

theorem fetchBatch_eq {first last : Int} (hs : s ≠ .traceFilter) :
    f.fetchBatch s first last = f.fetchBlocks s (blocksBetween first last) := by
  unfold fetchBatch
  have hne : (s == .traceFilter) = false := by simpa using hs
  rw [hne]
  exact bind_pure _

/-- The transactions that a strategy for blocks still finds: in a block that is not lost, the direct calls
and, unless it misses them, those it looks for. -/
def found (address : Text) (s : Strategy) (lost : Int → Bool) (missed : Mined → Bool) (n : Int)
    (t : Mined) : Bool :=
  !lost n && (t.calls address || (!missed t && Strategy.looksFor address t s))

theorem fetch_tells_settled {cap : Capability} {size : Int} (hf : f.Sized size)
    {a b : Int} (hway : Act.Ensures o (f.capabilityFor (.int a)) (· = cap)) (h0 : 0 ≤ a) (hab : a ≤ b)
    (hcap : cap ≠ .traceFilter) {missed : Mined → Bool} (hserved : chain.Served o f.client lost a b)
    (htells : chain.Tells o f.client missed a b (.of cap f.receiptFallback)) :
    f.Returns o a b fun r =>
      r.records = chain.records (found f.target (.of cap f.receiptFallback) lost missed) a b ∧
      Matching chain (found f.target (.of cap f.receiptFallback) lost missed) lost (blocksBetween a b)
        r.blocks := by
  have hstrategy : Strategy.of cap f.receiptFallback ≠ .traceFilter :=
    fun h => hcap (Strategy.of_eq_traceFilter_iff.mp h)
  refine fetch_records hf hway h0 hab fun first last hfirst _ hlast => ?_
  rw [fetchBatch_eq hstrategy]
  refine fetchBlocks_matches (by omega) (fun n hn hn' => hserved n (by omega) (by omega)) ?_
    fun n t _ => rfl
  exact fun n hn hn' => Strategy.finds_of_tells _ (by omega) (by omega) htells

theorem fetch_tells {cap : Capability} (hc : f.chosen? = some cap) {size : Int} (hf : f.Sized size)
    {a b : Int} (h0 : 0 ≤ a) (hab : a ≤ b)
    (hcap : cap ≠ .traceFilter) {missed : Mined → Bool} (hserved : chain.Served o f.client lost a b)
    (htells : chain.Tells o f.client missed a b (.of cap f.receiptFallback)) :
    f.Returns o a b fun r =>
      r.records = chain.records (found f.target (.of cap f.receiptFallback) lost missed) a b ∧
      Matching chain (found f.target (.of cap f.receiptFallback) lost missed) lost (blocksBetween a b)
        r.blocks :=
  fetch_tells_settled hf (capabilityFor_chosen hc _) h0 hab hcap hserved htells

/-- **The trace of a range recovers lost blocks.** -/
theorem fetch_recovering_settled {size : Int} (hf : f.Sized size) {a b : Int}
    (hway : Act.Ensures o (f.capabilityFor (.int a)) (· = .traceFilter)) (h0 : 0 ≤ a) (hab : a ≤ b)
    (hserved : chain.Served o f.client lost a b)
    (hranges : chain.TracesRanges o f.client f.target a b)
    (hlost : ∀ n, a ≤ n → n ≤ b → lost n = true → ∀ t ∈ chain.block n, t.Rooted ∧ LooksUp o f.client t) :
    f.Returns o a b fun r =>
      r.records = chain.records (fun _ t => t.calls f.target || t.reaches f.target) a b ∧
      Matching chain (fun _ t => t.calls f.target || t.reaches f.target) lost (blocksBetween a b)
        r.blocks := by
  refine fetch_records hf hway h0 hab fun first last hfirst hle hlast => ?_
  refine fetchBatch_recovers (by omega) (fun n hn hn' => hserved n (by omega) (by omega))
    (hranges first last hfirst hle hlast) ?_
  intro n hn hn' hl t ht
  obtain ⟨hroot, hlook⟩ := hlost n (by omega) (by omega) hl t ht
  exact ⟨Mined.reaches_of_rooted hroot, hlook⟩

theorem fetch_recovering (hc : f.chosen? = some .traceFilter) {size : Int} (hf : f.Sized size)
    {a b : Int} (h0 : 0 ≤ a) (hab : a ≤ b) (hserved : chain.Served o f.client lost a b)
    (hranges : chain.TracesRanges o f.client f.target a b)
    (hlost : ∀ n, a ≤ n → n ≤ b → lost n = true → ∀ t ∈ chain.block n, t.Rooted ∧ LooksUp o f.client t) :
    f.Returns o a b fun r =>
      r.records = chain.records (fun _ t => t.calls f.target || t.reaches f.target) a b ∧
      Matching chain (fun _ t => t.calls f.target || t.reaches f.target) lost (blocksBetween a b)
        r.blocks :=
  fetch_recovering_settled hf (capabilityFor_chosen hc _) h0 hab hserved hranges hlost

/-- With nothing lost and nothing missed, a strategy that looks for call trees finds all. -/
theorem found_all {address : Text} {s : Strategy}
    (hs : ∀ t, Strategy.looksFor address t s = t.reaches address) :
    found address s (fun _ => false) (fun _ => false) = fun _ t => t.calls address || t.reaches address := by
  funext n t
  simp [found, hs]

/-- A fetcher for the sample, with a batch for each block. -/
def sampleFetcher (cap : Capability) : Fetcher := {
  client := Sample.client, target := Sample.address, batchSize := .int 1, concurrency := .int 2
  receiptFallback := false, showProgress := false, chosen? := some cap }

theorem sampleFetcher_created (cap : Capability) :
    create Sample.client (.str Sample.address) (.int 1) (.int 2) true false (some cap) false =
      .ok (sampleFetcher cap) :=
  create_eq_ok_iff.mpr ⟨by decide, by decide, Sample.parse_address, rfl⟩

/-- With the second block of the sample lost, and a transaction of the first one missed, two are left. -/
theorem found_sample : Sample.chain.records
    (found Sample.address .traceBlock (· == 2) fun t => t.key == "0xe2") 1 2 =
    [(Sample.mined "0xD1" 1 0 true).record, (Sample.mined "0xe3" 1 2 false).record] := by
  have hdirect : found Sample.address .traceBlock (· == 2) (fun t => t.key == "0xe2") 1
      (Sample.mined "0xD1" 1 0 true) = true := by
    rw [found, Sample.calls_mined]
    rfl
  have hmissed : found Sample.address .traceBlock (· == 2) (fun t => t.key == "0xe2") 1
      (Sample.mined "0xE2" 1 1 false) = false := rfl
  have hinner : found Sample.address .traceBlock (· == 2) (fun t => t.key == "0xe2") 1
      (Sample.mined "0xe3" 1 2 false) = true := Sample.reaches_address (n := 1) (.tail _ (.tail _ (.head _)))
  rw [Sample.records_eq, Sample.blockOne, List.filter_cons_of_pos hdirect,
    List.filter_cons_of_neg (by simp [hmissed]), List.filter_cons_of_pos hinner]
  rfl

/-- **The ways of tracing agree.** From a truthful endpoint, each of them returns the records of the
transactions that call the target or reach it by an inner call, in chain order. -/
theorem strategies_agree {client : Client} {target : Json} {address : String} {size conc : Int}
    {fallback bar : Bool} (htarget : Address.parse target = .ok address) (hsize : 1 ≤ size) (hconc : 1 ≤ conc)
    {a b : Int} (h0 : 0 ≤ a) (hab : a ≤ b)
    (hserved : chain.Served o client (fun _ => false) a b)
    (htransactions : chain.TracesTransactions o client (fun _ => false) a b)
    (hblocks : chain.TracesBlocks o client (fun _ => false) a b)
    (hranges : chain.TracesRanges o client address a b) {cap : Capability} (hcap : cap ≠ .directCallsOnly) :
    ∃ f, create client target (.int size) (.int conc) true fallback (some cap) bar = .ok f ∧
      f.Returns o a b fun r =>
        r.records = chain.records (fun _ t => t.calls address || t.reaches address) a b := by
  let f : Fetcher := {
    client, target := address, batchSize := .int size, concurrency := .int conc
    receiptFallback := fallback, showProgress := bar, chosen? := some cap }
  have hf : create client target (.int size) (.int conc) true fallback (some cap) bar = .ok f :=
    create_eq_ok_iff.mpr ⟨hsize, hconc, htarget, rfl⟩
  have hsized := sized_of_create hf
  refine ⟨f, hf, ?_⟩
  cases cap with
  | directCallsOnly => exact absurd rfl hcap
  | traceFilter =>
    exact (fetch_recovering rfl hsized h0 hab hserved hranges (by simp)).imp fun r h => h.1
  | traceBlock =>
    have htells : chain.Tells o client (fun _ => false) a b (.of .traceBlock fallback) := hblocks
    refine (fetch_tells rfl hsized h0 hab (by simp) hserved htells).imp fun r h => h.1.trans ?_
    exact congrArg (chain.records · a b) (found_all fun _ => rfl)
  | traceTransaction =>
    have htells : chain.Tells o client (fun _ => false) a b (.of .traceTransaction fallback) := htransactions
    refine (fetch_tells rfl hsized h0 hab (by simp) hserved htells).imp fun r h => h.1.trans ?_
    exact congrArg (chain.records · a b) (found_all fun _ => rfl)

/-- The trace of each block finds the four transactions of the sample. -/
theorem strategies_agree_sample :
    (Address.parse (.str Sample.address) = .ok Sample.address ∧
      (1 : Int) ≤ 1 ∧ (1 : Int) ≤ 2 ∧ (0 : Int) ≤ 1 ∧
      Sample.chain.Served Sample.truthful Sample.client (fun _ => false) 1 2 ∧
      Sample.chain.TracesTransactions Sample.truthful Sample.client (fun _ => false) 1 2 ∧
      Sample.chain.TracesBlocks Sample.truthful Sample.client (fun _ => false) 1 2 ∧
      Sample.chain.TracesRanges Sample.truthful Sample.client Sample.address 1 2 ∧
      Capability.traceBlock ≠ .directCallsOnly) ∧
    ∃ f, create Sample.client (.str Sample.address) (.int 1) (.int 2) true false (some .traceBlock) false =
        .ok f ∧
      Act.Ensures Sample.truthful (f.fetch (.int 1) (.int 2)) fun r =>
        r.records = (Sample.blockOne ++ Sample.blockTwo).map (·.record) := by
  have hserved : Sample.chain.Served Sample.truthful Sample.client (fun _ => false) 1 2 :=
    Sample.served (by decide)
  have htransactions : Sample.chain.TracesTransactions Sample.truthful Sample.client (fun _ => false) 1 2 :=
    Sample.tracesTransactions
  have hblocks : Sample.chain.TracesBlocks Sample.truthful Sample.client (fun _ => false) 1 2 :=
    Sample.tracesBlocks (by decide)
  have hranges : Sample.chain.TracesRanges Sample.truthful Sample.client Sample.address 1 2 :=
    Sample.tracesRanges (by decide)
  have hcap : Capability.traceBlock ≠ .directCallsOnly := by decide
  refine ⟨⟨Sample.parse_address, by decide, by decide, by decide, hserved, htransactions, hblocks, hranges,
    hcap⟩, ?_⟩
  have h : ∃ f, create Sample.client (.str Sample.address) (.int 1) (.int 2) true false (some .traceBlock)
      false = .ok f ∧ f.Returns Sample.truthful 1 2 fun r => r.records = Sample.chain.records (fun _ t =>
        t.calls Sample.address || t.reaches Sample.address) 1 2 :=
    strategies_agree Sample.parse_address (by decide) (by decide) (by decide) (by decide) hserved
      htransactions hblocks hranges hcap
  obtain ⟨f, hf, hreturns⟩ := h
  refine ⟨f, hf, (hreturns.imp fun r hrecords => ?_).ensures (showProgress_of_create hf)⟩
  refine hrecords.trans (Sample.records_all fun n t ht => ?_)
  rw [Bool.or_eq_true]
  exact .inr (Sample.reaches_address ht)

/-- **Lost blocks are recovered.** A fetch that traces ranges returns the records of all transactions
that touch the target, whichever blocks are lost: those of a lost block are looked up by hash and put
into its own result, which still counts as failed. -/
theorem fetch_recovers {client : Client} {target : Json} {size conc : Int} {fallback bar : Bool}
    (hf : create client target (.int size) (.int conc) true fallback (some .traceFilter) bar = .ok f)
    {a b : Int} (h0 : 0 ≤ a) (hab : a ≤ b) (hserved : chain.Served o client lost a b)
    (hranges : chain.TracesRanges o client f.target a b)
    (hlost : ∀ n, a ≤ n → n ≤ b → lost n = true → ∀ t ∈ chain.block n, t.Rooted ∧ LooksUp o client t) :
    f.Returns o a b fun r =>
      r.records = chain.records (fun _ t => t.calls f.target || t.reaches f.target) a b ∧
      List.Forall₂ (chain.Matches (fun _ t => t.calls f.target || t.reaches f.target) lost)
        (blocksBetween a b) r.blocks ∧
      r.blocksFailed = (List.range (b + 1 - a).toNat).countP fun i : Nat => lost (a + i) := by
  have hsized := sized_of_create hf
  have hc : f.chosen? = some .traceFilter := chosen_of_create hf
  obtain rfl := client_of_create hf
  exact (fetch_recovering hc hsized h0 hab hserved hranges hlost).imp
    fun r h => ⟨h.1, h.2, blocksFailed_eq h.2⟩

/-- The first block of the sample is lost, and its three transactions are looked up. -/
theorem fetch_recovers_sample :
    (create Sample.client (.str Sample.address) (.int 1) (.int 2) true false (some .traceFilter) false =
        .ok (sampleFetcher .traceFilter) ∧
      (0 : Int) ≤ 1 ∧ (1 : Int) ≤ 2 ∧
      Sample.chain.Served (Sample.endpoint (· == 1) fun _ => false) Sample.client (· == 1) 1 2 ∧
      Sample.chain.TracesRanges (Sample.endpoint (· == 1) fun _ => false) Sample.client Sample.address 1 2 ∧
      ∀ n, 1 ≤ n → n ≤ 2 → (n == 1) = true → ∀ t ∈ Sample.chain.block n,
        t.Rooted ∧ LooksUp (Sample.endpoint (· == 1) fun _ => false) Sample.client t) ∧
    Act.Ensures (Sample.endpoint (· == 1) fun _ => false)
      ((sampleFetcher .traceFilter).fetch (.int 1) (.int 2)) fun r =>
        r.records = (Sample.blockOne ++ Sample.blockTwo).map (·.record) ∧ r.blocksFailed = 1 := by
  have hf := sampleFetcher_created .traceFilter
  have hserved : Sample.chain.Served (Sample.endpoint (· == 1) fun _ => false) Sample.client (· == 1) 1 2 :=
    Sample.served (by decide)
  have hranges : Sample.chain.TracesRanges (Sample.endpoint (· == 1) fun _ => false) Sample.client
    Sample.address 1 2 := Sample.tracesRanges (by decide)
  have hlost : ∀ n, 1 ≤ n → n ≤ 2 → (n == 1) = true → ∀ t ∈ Sample.chain.block n,
      t.Rooted ∧ LooksUp (Sample.endpoint (· == 1) fun _ => false) Sample.client t :=
    fun _ _ _ _ _ ht => ⟨Sample.rooted ht, Sample.looksUp ht⟩
  refine ⟨⟨hf, by decide, by decide, hserved, hranges, hlost⟩, ?_⟩
  have h := fetch_recovers hf (by decide) (by decide) hserved hranges hlost
  refine (h.imp ?_).ensures (showProgress_of_create hf)
  intro r h
  obtain ⟨hrecords, -, hfailed⟩ := h
  refine ⟨hrecords.trans (Sample.records_all fun n t ht => ?_), hfailed⟩
  rw [Bool.or_eq_true]
  exact .inr (Sample.reaches_address ht)

/-- **What failures cost.** A fetch that goes block by block returns the records of the transactions
that are in no lost block and call the target, or are looked for and not missed: nothing else is lost,
and nothing is added. -/
theorem fetch_degrades {client : Client} {target : Json} {size conc : Int} {detect fallback bar : Bool}
    {capability? : Option Capability}
    (hf : create client target (.int size) (.int conc) detect fallback capability? bar = .ok f)
    {cap : Capability} (hc : f.chosen? = some cap) (hcap : cap ≠ .traceFilter) {a b : Int} (h0 : 0 ≤ a)
    (hab : a ≤ b) (hserved : chain.Served o client lost a b) {missed : Mined → Bool}
    (htells : chain.Tells o client missed a b (.of cap fallback)) :
    f.Returns o a b fun r =>
      r.records = chain.records (found f.target (.of cap fallback) lost missed) a b ∧
      r.blocksFailed = (List.range (b + 1 - a).toNat).countP fun i : Nat => lost (a + i) := by
  have hsized := sized_of_create hf
  obtain rfl := client_of_create hf
  obtain rfl := receiptFallback_of_create hf
  exact (fetch_tells hc hsized h0 hab hcap hserved htells).imp fun r h => ⟨h.1, blocksFailed_eq h.2⟩

/-- The second block of the sample is lost, and a transaction of the first one is missed. -/
theorem fetch_degrades_sample :
    (create Sample.client (.str Sample.address) (.int 1) (.int 2) true false (some .traceBlock) false =
        .ok (sampleFetcher .traceBlock) ∧
      (sampleFetcher .traceBlock).chosen? = some .traceBlock ∧ Capability.traceBlock ≠ .traceFilter ∧
      (0 : Int) ≤ 1 ∧ (1 : Int) ≤ 2 ∧
      Sample.chain.Served (Sample.endpoint (· == 2) (· == "0xe2")) Sample.client (· == 2) 1 2 ∧
      Sample.chain.Tells (Sample.endpoint (· == 2) (· == "0xe2")) Sample.client (fun t => t.key == "0xe2") 1 2
        (.of .traceBlock false)) ∧
    Act.Ensures (Sample.endpoint (· == 2) (· == "0xe2"))
      ((sampleFetcher .traceBlock).fetch (.int 1) (.int 2)) fun r =>
        r.records = [(Sample.mined "0xD1" 1 0 true).record, (Sample.mined "0xe3" 1 2 false).record] ∧
        r.blocksFailed = 1 := by
  have hf := sampleFetcher_created .traceBlock
  have hcap : Capability.traceBlock ≠ .traceFilter := by decide
  have hserved : Sample.chain.Served (Sample.endpoint (· == 2) (· == "0xe2")) Sample.client (· == 2) 1 2 :=
    Sample.served (by decide)
  have htells : Sample.chain.Tells (Sample.endpoint (· == 2) (· == "0xe2")) Sample.client
    (fun t => t.key == "0xe2") 1 2 (.of .traceBlock false) := Sample.tracesBlocks (by decide)
  refine ⟨⟨hf, rfl, hcap, by decide, by decide, hserved, htells⟩, ?_⟩
  have h := fetch_degrades hf rfl hcap (by decide) (by decide) hserved htells
  refine (h.imp ?_).ensures (showProgress_of_create hf)
  intro r h
  obtain ⟨hrecords, hfailed⟩ := h
  exact ⟨hrecords.trans found_sample, hfailed⟩

end Fetcher
end AssertionReplay
