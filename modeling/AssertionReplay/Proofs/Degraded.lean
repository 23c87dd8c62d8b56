/-
Fetches that look for direct calls only.

A fetcher that is not to detect inner calls has its way of tracing fixed, and
no later fetch of it traces, whatever way it was given besides. All that it
asks for is the blocks of the range, and all that it returns is their direct
calls, with one exception that has to be asked for: with the fallback to
logs, it also asks for the receipts of the transactions that are no direct
calls, and returns those with a log that the target emitted
(`Fetcher.fetch_degraded`).
-/
import AssertionReplay.Proofs.DirectCalls
import AssertionReplay.Proofs.FetchRequests
import AssertionReplay.Proofs.Provenance
import AssertionReplay.Proofs.Survival

namespace AssertionReplay

open Text Act

variable {o : Outside}

theorem Act.of_attemptOwn {x : Act α} {a : α} {j j' : Journal} (h : x.attemptOwn o j = (.ok (.ok a), j')) :
    x o j = (.ok a, j') := by
  rcases hx : x o j with ⟨e | b, j₁⟩
  · rw [Act.attemptOwn_of_error hx] at h
    split at h <;> cases h
  · rw [Act.attemptOwn_of_ok hx] at h
    cases h
    rfl

/-! ## Receipts -/

namespace Strategy

variable {P : Request → Prop} {target : Json} {test : Text → Act Bool} {c : Client} {hash : Text}

theorem indirectHashes_passed (transactions : List Json) (hashes : List Text) :
    Yields o (indirectHashes target test hashes transactions) fun found =>
      ∀ hash ∈ found, hash ∈ hashes ∨ ∃ past, (test hash o past).1 = .ok true := by
  induction transactions generalizing hashes with
  | nil => exact .pure fun hash hmem => .inl hmem
  | cons transaction rest ih =>
    unfold indirectHashes
    refine .bind .any fun hash? _ => ?_
    cases hash? with
    | none => exact ih hashes
    | some hash =>
      refine .bind Yields.returned fun passed hpassed => ?_
      split
      · rename_i hpass
        refine (ih (addHash hashes hash)).imp fun found hfound k hk => ?_
        rcases hfound k hk with hk | hk
        · rcases mem_addHash.mp hk with hk | rfl
          · exact .inl hk
          · rw [hpass] at hpassed
            exact .inr hpassed
        · exact .inr hk
      · exact ih hashes

/-- The receipt of a transaction was answered with a log that the target emitted. -/
def Logged (c : Client) (o : Outside) (target : Json) (hash : Text) : Prop :=
  ∃ past receipt, (c.transactionReceipt (.str hash) o past).1 = .ok receipt ∧ receiptTouches target receipt = .ok true

theorem logged_of_receiptReaches {past : Journal} (h : (receiptReaches c target hash o past).1 = .ok true) :
    Logged c o target hash := by
  obtain ⟨outcome, j, houtcome, h⟩ := bind_apply_eq_ok_iff.mp (Prod.ext h rfl)
  cases outcome with
  | error e =>
    obtain ⟨_, _, _, h⟩ := bind_apply_eq_ok_iff.mp h
    cases h
  | ok receipt =>
    have htouches := congrArg Prod.fst ((lift_apply (receiptTouches target receipt) o j).symm.trans h)
    exact ⟨past, receipt, congrArg Prod.fst (of_attemptOwn houtcome), htouches⟩

end Strategy

/-! ## Blocks -/

namespace Fetcher

variable {f : Fetcher} {n : Int}

/-- What is done without tracing. -/
def degraded (f : Fetcher) : Strategy := .of .directCallsOnly f.receiptFallback

theorem degraded_cases (f : Fetcher) :
    (f.receiptFallback = false ∧ f.degraded = .direct) ∨ (f.receiptFallback = true ∧ f.degraded = .receiptLogs) := by
  unfold degraded
  cases f.receiptFallback
  · exact .inl ⟨rfl, rfl⟩
  · exact .inr ⟨rfl, rfl⟩

/-- The block was read so, in answer to some request for it. -/
def Obtains (f : Fetcher) (o : Outside) (n : Int) (c : Content) : Prop :=
  ∃ past, (f.contentOf n o past).1 = .ok (some c)

/-- A request that a fetch without tracing makes for a block: for the block itself, or, with the fallback,
for the receipt of one of its transactions that is no direct call. -/
inductive DegradedRequest (f : Fetcher) (o : Outside) (n : Int) : Request → Prop
  | block : DegradedRequest f o n ⟨"eth_getBlockByNumber", blockParams n⟩
  | receipt {c : Content} {t : Json} {hash : Text} (hfallback : f.receiptFallback = true)
      (hread : f.Obtains o n c) (ht : t ∈ c.transactions)
      (hhash : Strategy.indirectHash? (.str f.target) t = .ok (some hash)) :
      DegradedRequest f o n ⟨"eth_getTransactionReceipt", .arr [.str hash]⟩

/-- A record that a fetch without tracing returns for a block: that of one of its transactions, which is a
direct call, or, with the fallback, has a receipt with a log that the target emitted. -/
inductive DegradedRecord (f : Fetcher) (o : Outside) (n : Int) (r : Record) : Prop
  | direct {c : Content} {t : Json} (hread : f.Obtains o n c) (ht : t ∈ c.transactions)
      (hr : Record.ofTransaction t (some (.int c.block)) = .ok r) (hdirect : Direct f.target t)
  | logged {c : Content} {t : Json} (hread : f.Obtains o n c) (ht : t ∈ c.transactions)
      (hr : Record.ofTransaction t (some (.int c.block)) = .ok r) (hfallback : f.receiptFallback = true)
      (hlogged : Strategy.Logged f.client o (.str f.target) r.hash)

theorem innerCalls_asks {P : Request → Prop} {transactions : List Json}
    (h : ∀ t ∈ transactions, ∀ hash, f.receiptFallback = true →
      Strategy.indirectHash? (.str f.target) t = .ok (some hash) →
      P ⟨"eth_getTransactionReceipt", .arr [.str hash]⟩) :
    Asks o P (f.innerCalls f.degraded n transactions) := by
  have hP := asks_closed o P
  refine innerCalls_closed hP.toClosed ?_
  rcases f.degraded_cases with ⟨-, hs⟩ | ⟨hfallback, hs⟩ <;> rw [hs]
  · exact hP.pure
  · exact Strategy.indirectHashes_closed hP.toClosed (fun t ht hash hhash =>
      Strategy.receiptReaches_closed hP.toClosed (Client.call_asks (h t ht hash hfallback hhash)) _) []

/-- Only with the fallback is anything but a direct call found, and then by its receipt. -/
theorem innerCalls_logged (transactions : List Json) :
    Yields o (f.innerCalls f.degraded n transactions) fun inner => ∀ p ∈ inner,
      Hashed p ∧ p.2 ∈ transactions ∧ f.receiptFallback = true ∧ Strategy.Logged f.client o (.str f.target) p.1 := by
  have hnamed : Yields o (f.degraded.blockHashes f.client (.str f.target) (.int n) transactions) fun hashes =>
      ∀ hash ∈ hashes, f.receiptFallback = true ∧ Strategy.Logged f.client o (.str f.target) hash := by
    rcases f.degraded_cases with ⟨-, hs⟩ | ⟨hfallback, hs⟩ <;> rw [hs]
    · exact .pure (by simp)
    · refine (Strategy.indirectHashes_passed transactions []).imp fun found hfound hash hhash => ⟨hfallback, ?_⟩
      obtain ⟨past, hpassed⟩ := (hfound hash hhash).resolve_left (by simp)
      exact Strategy.logged_of_receiptReaches hpassed
  unfold innerCalls
  refine .bind hnamed.attempt fun outcome houtcome => ?_
  cases outcome with
  | error e => exact .after_logWritten (.pure (by simp))
  | ok hashes =>
    refine .pure fun p hp => ?_
    obtain ⟨hhashed, hname, hmem⟩ := withHashIn_picks hashes transactions p hp
    exact ⟨hhashed, hmem, houtcome hashes rfl _ hname⟩

theorem fetchBlock_asks (n : Int) : Asks o (f.DegradedRequest o n) (f.fetchBlock f.degraded n) := by
  have hP := asks_closed o (f.DegradedRequest o n)
  have hcontent : Asks o (f.DegradedRequest o n) (f.contentOf n) :=
    contentOf_closed hP.toClosed hP.leads (Client.call_asks .block)
  unfold fetchBlock
  refine Asks.bind_yields (hP.attempt hcontent) Yields.returned.attempt fun read hread => ?_
  rcases read with e | _ | c
  · exact hP.bind hP.logFault fun _ => hP.pure
  · exact hP.pure
  · have hinner : Asks o (f.DegradedRequest o n) (f.innerCalls f.degraded c.block c.transactions) :=
      innerCalls_asks fun t ht hash hfallback hhash => .receipt hfallback (hread _ rfl) ht hhash
    refine hP.bind hinner fun inner => hP.bind (addInner_closed hP.toClosed _ _ _) fun matched => ?_
    exact hP.ite (hP.bind hP.logWritten fun _ => hP.pure) hP.pure

theorem fetchBlock_records (n : Int) :
    Yields o (f.fetchBlock f.degraded n) fun b => ∀ p ∈ b.matched, f.DegradedRecord o n p.2 := by
  have hnone : ∀ p ∈ ([] : OrderedMap Record), f.DegradedRecord o n p.2 := by simp
  have hcontent : Yields o (f.contentOf n) fun c? => ∀ c, c? = some c → f.Obtains o n c ∧ c.Matched f.target := by
    refine (Ends.and_yields Yields.returned (contentOf_matched n)).imp fun c? h c hc => ?_
    obtain ⟨⟨past, hpast⟩, hmatched⟩ := h
    exact ⟨⟨past, hpast.trans (congrArg _ hc)⟩, hmatched c hc⟩
  unfold fetchBlock
  refine .bind hcontent.attempt fun read hread => ?_
  rcases read with e | _ | c
  · exact .after_logFault (.pure hnone)
  · exact .pure hnone
  · obtain ⟨hobtains, hmatched⟩ := hread _ rfl c rfl
    have hdirect : ∀ p ∈ c.direct, f.DegradedRecord o n p.2 := by
      refine directCalls_each (I := fun p => f.DegradedRecord o n p.2) (fun t ht recipient hto hsame r hr => ?_) hnone hmatched
      exact .direct hobtains ht hr ((same_iff_direct hto).mp hsame)
    refine .bind (innerCalls_logged _) fun inner hinner => ?_
    refine .bind (addInner_each (I := fun p => f.DegradedRecord o n p.2) hdirect fun p hp r hr => ?_) fun matched hmatched => ?_
    · obtain ⟨hhashed, hmem, hfallback, hlogged⟩ := hinner p hp
      rw [← hhashed.record_hash hr] at hlogged
      exact .logged hobtains hmem hr hfallback hlogged
    · split
      · exact .after_logWritten (.pure hmatched)
      · exact .pure hmatched

/-! ## A fetch -/

theorem fetch_yields_of_range {a b : Int} {P : Fetched → Prop}
    (h : 0 ≤ a → a ≤ b → Yields o (f.fetch (.int a) (.int b)) P) : Yields o (f.fetch (.int a) (.int b)) P := by
  cases hrange : rangeOf (.int a) (.int b) with
  | ok p => exact h (bounds_of_rangeOf hrange).1 (bounds_of_rangeOf hrange).2.1
  | error e =>
    unfold fetch run
    rw [hrange]
    exact fun _ => trivial

/-- **Fetching without tracing.** Let a fetcher be made that is not to detect inner calls, whatever way of
tracing it is given and whether or not it has the fallback to logs. Whatever the endpoint answers,
everything that a fetch of it asks for is a block of the range, or, with the fallback, the receipt of a
transaction of such a block that is no direct call. Every record that it returns is that of a
transaction of such a block which is a direct call, or, with the fallback, has a receipt with a log that
the target emitted. The fetcher stays as it is, so the same holds of every later fetch. -/
theorem fetch_degraded {client : Client} {target : Json} {size conc : Int} {fallback bar : Bool}
    {capability? : Option Capability}
    (hf : create client target (.int size) (.int conc) false fallback capability? bar = .ok f) (o : Outside)
    (a b : Int) :
    f.receiptFallback = fallback ∧
    Asks o (fun request => ∃ n, a ≤ n ∧ n ≤ b ∧ f.DegradedRequest o n request) (f.fetch (.int a) (.int b)) ∧
    Yields o (f.fetch (.int a) (.int b))
      (fun r => ∀ record ∈ r.records, ∃ n, a ≤ n ∧ n ≤ b ∧ f.DegradedRecord o n record) ∧
    Yields o (f.run (.int a) (.int b)) fun p => p.1 = f := by
  have hway : f.chosen? = some .directCallsOnly := chosen_of_create hf
  have hs : f.degraded ≠ .traceFilter := by
    rcases f.degraded_cases with ⟨-, h⟩ | ⟨-, h⟩ <;> rw [h] <;> decide
  refine ⟨receiptFallback_of_create hf, ?_, ?_, run_yields_same hway _ _⟩
  · refine fetch_asks hway fun first last hfirst hlast =>
      fetchBatch_closed (asks_closed o _) (fun n hn hn' => ?_) fun h => absurd h hs
    exact (fetchBlock_asks n).mono fun request h => ⟨n, by omega, by omega, h⟩
  · refine fetch_yields_of_range fun h0 hab => ?_
    have hblocks := fetch_of_blocks (R := fun n block => ∀ p ∈ block.matched, f.DegradedRecord o n p.2)
      hway (sized_of_create hf) h0 hab (fun h => absurd h hs) fun n _ _ =>
      ((fetchBlock_ends_any n).and_yields (fetchBlock_records n)).imp fun _ h => h.2
    refine hblocks.ends.mono (fun r hcovers record hrecord => ?_) fun _ _ _ => trivial
    obtain ⟨hall, hrecords⟩ := hcovers
    rw [hrecords] at hrecord
    obtain ⟨block, hblock, p, hp, rfl⟩ := mem_mergedRecords hrecord
    obtain ⟨n, hn, hn'⟩ := exists_of_forall₂ hall.flip hblock
    exact ⟨n, (mem_blocksBetween.mp hn).1, (mem_blocksBetween.mp hn).2, hn' p hp⟩

/-- A transaction that calls nobody, alone in block one, with a receipt in which the target has emitted a
log. -/
def loggedTransaction : Json := .obj [("hash", .str "0x02")]

def loggingEndpoint : Outside := Client.answering fun request =>
  if request.method == "eth_getBlockByNumber" then
    some (.obj [("number", .str "0x1"), ("transactions", .arr [loggedTransaction])])
  else if request.method == "eth_getTransactionReceipt" then
    some (.obj [("logs", .arr [.obj [("address", .str Sample.address)]])])
  else none

/-- Without the fallback, the block is all that is asked for. -/
theorem fetch_degraded_sample :
    create Sample.client (.str Sample.address) (.int 1) (.int 1) false false none false = .ok directFetcher ∧
    ∀ request ∈ (directFetcher.fetch (.int 1) (.int 1) loggingEndpoint []).2.requests,
      request = ⟨"eth_getBlockByNumber", blockParams 1⟩ := by
  refine ⟨directFetcher_created, fun request hrequest => ?_⟩
  obtain ⟨hfallback, hasks, -⟩ := fetch_degraded directFetcher_created loggingEndpoint 1 1
  obtain ⟨asked, hasked, hall⟩ := hasks []
  rw [hasked, show Journal.requests [] = [] from rfl, List.nil_append] at hrequest
  obtain ⟨n, hn, hn', h⟩ := hall request hrequest
  obtain rfl : n = 1 := by omega
  cases h with
  | block => rfl
  | receipt hfallback' => exact absurd (hfallback.symm.trans hfallback') (by decide)

/-- A fetcher that looks for direct calls, and for logs. -/
def fallbackFetcher : Fetcher := { directFetcher with receiptFallback := true }

/-- **With the fallback, a fetch goes beyond direct calls**: it asks for a receipt, and returns a record
that is none of a direct call. -/
theorem fetch_beyond_direct_calls :
    create Sample.client (.str Sample.address) (.int 1) (.int 1) false true none false = .ok fallbackFetcher ∧
    (fallbackFetcher.fetch (.int 1) (.int 1) loggingEndpoint []).2.requests.map (·.method) =
      ["eth_getBlockByNumber", "eth_getTransactionReceipt"] ∧
    (fallbackFetcher.fetch (.int 1) (.int 1) loggingEndpoint []).1.toOption.map (·.records.map (·.recipient)) =
      some [(Address.zero : Text)] ∧
    (Address.zero : Text) ≠ fallbackFetcher.target ∧ ¬ Direct fallbackFetcher.target loggedTransaction :=
  ⟨create_eq_ok_iff.mpr ⟨by decide, by decide, Sample.parse_address, rfl⟩, by decide +kernel, by decide +kernel,
    by decide +kernel, by unfold Direct; decide⟩

end Fetcher
end AssertionReplay
