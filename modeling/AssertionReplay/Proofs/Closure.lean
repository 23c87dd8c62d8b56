/-
Properties that the whole has if its parts have it.

Many properties of an action are put together as the action is: it leaves
only events of some kind, it asks only for some requests, it ends in the same
way from journals that look the same. Such a property is closed
(`Act.Closed`). Each function of the fetch has a closed property if its calls
have it; there is one lemma for each function, for all such properties. Where
the first call has a property of its own, so has the whole (`Act.Leads`).
-/
import AssertionReplay.Proofs.Batches
import AssertionReplay.Proofs.Outcome

namespace AssertionReplay

/-- The event is no part of a call, and nobody else can see it. -/
def Event.isQuiet : Event → Bool
  | .log _ | .clock | .drew _ => true
  | _ => false

namespace Act

/-- The property allows to go on or to fail without looking at anything, allows quiet events, and the whole has it
if its parts do. -/
structure Closed (Φ : ∀ {α : Type}, Act α → Prop) : Prop where
  lift {α : Type} {r : Except Fault α} : Φ (liftM r : Act α)
  record {e : Event} : e.isQuiet = true → Φ (Act.record e)
  bind {α β : Type} {x : Act α} {f : α → Act β} : Φ x → (∀ a, Φ (f a)) → Φ (x >>= f)
  attempt {α : Type} {x : Act α} : Φ x → Φ x.attempt
  attemptOwn {α : Type} {x : Act α} : Φ x → Φ x.attemptOwn

/-- A whole that starts with a part of the first property, and goes on with parts of the second one, has the first
property. -/
structure Leads (Ψ Φ : ∀ {α : Type}, Act α → Prop) : Prop where
  bind {α β : Type} {x : Act α} {f : α → Act β} : Ψ x → (∀ a, Φ (f a)) → Ψ (x >>= f)
  attempt {α : Type} {x : Act α} : Ψ x → Ψ x.attempt
  attemptOwn {α : Type} {x : Act α} : Ψ x → Ψ x.attemptOwn

/-- The property also allows to look at the clock and at what is outside. -/
structure ClosedOutside (Φ : ∀ {α : Type}, Act α → Prop) : Prop extends Closed @Φ where
  now : Φ Act.now
  outside : Φ Act.outside

namespace Closed

variable {Φ : ∀ {α : Type}, Act α → Prop}

theorem ite (_ : Closed @Φ) {p : Prop} [Decidable p] {x y : Act α} (hx : Φ x) (hy : Φ y) :
    Φ (if p then x else y) := by
  split
  · exact hx
  · exact hy

variable (hΦ : Closed @Φ)

include hΦ

theorem leads : Leads @Φ @Φ := ⟨hΦ.bind, hΦ.attempt, hΦ.attemptOwn⟩

theorem pure {a : α} : Φ (Pure.pure a : Act α) := hΦ.lift (r := .ok a)

theorem fail {e : Fault} : Φ (throw e : Act α) := hΦ.lift (r := .error e)

theorem log {level : Level} {text : Text} : Φ (Act.log level text) := hΦ.record rfl

theorem logFault {level : Level} {text : Text} {cause : Fault} : Φ (Act.logFault level text cause) := hΦ.record rfl

theorem logWritten {level : Level} {cause? : Option Fault} {text : Except Fault Text} :
    Φ (Act.logWritten level cause? text) := by
  cases text with
  | ok text => exact hΦ.record rfl
  | error e => exact hΦ.pure

theorem draw {text : Text} : Φ (Act.draw text) := hΦ.record rfl

theorem map {f : α → β} {x : Act α} (hx : Φ x) : Φ (f <$> x) := by
  rw [← bind_pure_comp]
  exact hΦ.bind hx fun _ => hΦ.pure

theorem lift_bind {r : Except Fault α} {f : α → Act β} (hf : ∀ a, r = .ok a → Φ (f a)) : Φ (liftM r >>= f) := by
  cases r with
  | ok a =>
    rw [lift_ok_bind]
    exact hf a rfl
  | error e => exact hΦ.fail (e := e)

theorem mapEach {f : α → Act β} {xs : List α} (h : ∀ a ∈ xs, Φ (f a)) : Φ (Act.mapEach xs f) := by
  induction xs with
  | nil => exact hΦ.pure
  | cons x xs ih =>
    obtain ⟨hx, hxs⟩ := List.forall_mem_cons.mp h
    exact hΦ.bind hx fun _ => hΦ.bind (ih hxs) fun _ => hΦ.pure

end Closed
end Act

open Act

variable {Φ Ψ : ∀ {α : Type}, Act α → Prop}

/-! ## Calls -/

namespace Client

variable {c : Client} (hΦ : Closed @Φ)

include hΦ

theorem exchange_closed {connection : Connection} {request : Request} (hpost : Φ (Act.post connection request))
    (hsleep : ∀ delay, Φ (Act.sleep delay)) (left : Nat) (backoff : Binary64) :
    Φ (exchange connection request left backoff) := by
  induction left generalizing backoff with
  | zero =>
    unfold exchange
    refine hΦ.bind hpost fun reply => ?_
    cases reply with
    | response r => exact hΦ.lift
    | timeout => exact hΦ.bind hΦ.lift fun _ => hΦ.fail
    | failure reason => exact hΦ.fail
    | raised fault => exact hΦ.fail
  | succ left ih =>
    unfold exchange
    refine hΦ.bind hpost fun reply => ?_
    cases reply with
    | response r =>
      refine hΦ.ite (hΦ.bind hΦ.lift fun delay? => hΦ.bind hΦ.log fun _ => ?_) hΦ.lift
      exact hΦ.bind (hsleep _) fun _ => ih _
    | timeout => exact hΦ.bind hΦ.lift fun _ => hΦ.fail
    | failure reason => exact hΦ.fail
    | raised fault => exact hΦ.fail

/-- A call posts its request, once or more often, and waits in between. -/
theorem call_closed {method : Text} {params : Json}
    (hpost : Φ (Act.post c.connection ⟨method, params.orElse (.arr [])⟩)) (hsleep : ∀ delay, Φ (Act.sleep delay)) :
    Φ (c.call method params) := by
  have hexchange := exchange_closed hΦ hpost hsleep
  unfold call
  refine hΦ.bind hΦ.lift fun left => hΦ.ite ?_ (hexchange _ _)
  exact hΦ.bind hΦ.fail fun _ => hexchange _ _

theorem blockByNumber_closed (hcall : ∀ params, Φ (c.call "eth_getBlockByNumber" params)) (number full : Json) :
    Φ (c.blockByNumber number full) :=
  hΦ.bind hΦ.lift fun _ => hcall _

theorem traceFilter_closed (hcall : ∀ params, Φ (c.call "trace_filter" params)) (first last address : Json) :
    Φ (c.traceFilter first last address) :=
  hΦ.bind hΦ.lift fun _ => hΦ.bind hΦ.lift fun _ => hΦ.bind (hcall _) fun _ => hΦ.pure

theorem traceBlock_closed (hcall : ∀ params, Φ (c.call "debug_traceBlockByNumber" params)) (number : Json) :
    Φ (c.traceBlock number) :=
  hΦ.bind hΦ.lift fun _ => hΦ.bind (hcall _) fun _ => hΦ.pure

theorem traceTransaction_closed (hcall : ∀ params, Φ (c.call "debug_traceTransaction" params)) (hash : Json) :
    Φ (c.traceTransaction hash) :=
  hΦ.bind (hcall _) fun _ => hΦ.pure

end Client

/-! ## Probes -/

namespace Probe

variable {c : Client} (hΦ : Closed @Φ)

include hΦ

theorem classify_closed (way : Capability) {request : Act Json} (h : Φ request) : Φ (classify way request) := by
  unfold classify
  refine hΦ.bind (hΦ.attemptOwn h) fun outcome => ?_
  cases outcome <;> exact hΦ.pure

theorem sampleFrom_closed (hcall : ∀ params, Φ (c.call "eth_getBlockByNumber" params)) (block : Json)
    (left i : Nat) : Φ (sampleFrom c block left i) := by
  induction left generalizing i with
  | zero => exact hΦ.pure
  | succ left ih =>
    unfold sampleFrom
    refine hΦ.bind hΦ.lift fun n => hΦ.ite hΦ.pure ?_
    refine hΦ.bind (hΦ.attemptOwn (Client.blockByNumber_closed hΦ hcall _ _)) fun looked => ?_
    cases looked with
    | error e => exact hΦ.bind hΦ.logWritten fun _ => ih _
    | ok v =>
      refine hΦ.bind hΦ.lift fun first? => ?_
      cases first? with
      | some transaction => exact hΦ.lift
      | none => exact ih _

theorem ranked_closed (hcall : ∀ method params, Φ (c.call method params)) (block target : Json) :
    ∀ probe ∈ ranked c block target, Φ probe := by
  have hfilter : Φ (traceFilter c block target) :=
    hΦ.ite hΦ.pure (classify_closed hΦ _ (Client.traceFilter_closed hΦ (hcall _) _ _ _))
  have hblock : Φ (traceBlock c block) := classify_closed hΦ _ (Client.traceBlock_closed hΦ (hcall _) _)
  have htransaction : Φ (traceTransaction c block) := by
    refine hΦ.bind (sampleFrom_closed hΦ (hcall _) block _ _) fun hash => hΦ.ite hΦ.pure ?_
    exact classify_closed hΦ _ (Client.traceTransaction_closed hΦ (hcall _) _)
  simpa [ranked] using ⟨hfilter, hblock, htransaction⟩

theorem firstSupported_closed {probes : List (Act ProbeReport)} (h : ∀ probe ∈ probes, Φ probe) :
    Φ (firstSupported probes) := by
  induction probes with
  | nil => exact hΦ.bind hΦ.log fun _ => hΦ.pure
  | cons probe rest ih =>
    have hrest := ih fun probe hmem => h probe (List.mem_cons_of_mem _ hmem)
    unfold firstSupported
    refine hΦ.bind (h probe List.mem_cons_self) fun report => hΦ.ite (hΦ.bind hΦ.log fun _ => hΦ.pure) ?_
    refine hΦ.bind hΦ.log fun _ => hΦ.ite ?_ hrest
    exact hΦ.bind hΦ.log fun _ => hrest

theorem select_closed (hcall : ∀ method params, Φ (c.call method params)) (block target : Json) :
    Φ (select c block target) :=
  firstSupported_closed hΦ (ranked_closed hΦ hcall block target)

end Probe

/-! ## Strategies -/

namespace Strategy

/-- The method that a strategy calls for a block, or for its transactions. -/
def blockMethod? : Strategy → Option Text
  | traceBlock => some "debug_traceBlockByNumber"
  | traceTransaction => some "debug_traceTransaction"
  | receiptLogs => some "eth_getTransactionReceipt"
  | _ => none

/-- The methods that a strategy calls. -/
def methods : Strategy → List Text
  | direct => []
  | traceFilter => ["trace_filter", "eth_getTransactionByHash"]
  | traceBlock => ["debug_traceBlockByNumber"]
  | traceTransaction => ["debug_traceTransaction"]
  | receiptLogs => ["eth_getTransactionReceipt"]

theorem mem_methods {s : Strategy} {method : Text} (h : method ∈ s.blockMethod?) : method ∈ s.methods := by
  cases s <;> simp_all [blockMethod?, methods]

variable {c : Client} (hΦ : Closed @Φ)

include hΦ

theorem frameHashes_closed (target block : Json) (transactions : List Json) (position : Nat) (hashes : List Text)
    (frames : List Json) : Φ (frameHashes target block transactions position hashes frames) := by
  induction frames generalizing position hashes with
  | nil => exact hΦ.pure
  | cons frame rest ih =>
    cases frame with
    | obj members =>
      unfold frameHashes
      refine hΦ.ite (hΦ.bind hΦ.logWritten fun _ => ih _ _) ?_
      refine hΦ.bind hΦ.lift fun reaches => hΦ.ite (hΦ.bind hΦ.lift fun hash? => ?_) (ih _ _)
      cases hash? with
      | some hash => exact ih _ _
      | none => exact ih _ _
    | _ => exact hΦ.bind hΦ.logWritten fun _ => ih _ _

theorem traceBlockHashes_closed (hcall : ∀ params, Φ (c.call "debug_traceBlockByNumber" params))
    (target block : Json) (transactions : List Json) : Φ (traceBlockHashes c target block transactions) := by
  unfold traceBlockHashes
  refine hΦ.bind (hΦ.attemptOwn (Client.traceBlock_closed hΦ hcall _)) fun traced => ?_
  split
  · exact hΦ.bind hΦ.logWritten fun _ => hΦ.pure
  · exact frameHashes_closed hΦ _ _ _ _ _ _
  · exact hΦ.bind hΦ.logWritten fun _ => hΦ.pure

theorem indirectHashes_closed {target : Json} {test : Text → Act Bool} {transactions : List Json}
    (htest : ∀ t ∈ transactions, ∀ hash, indirectHash? target t = .ok (some hash) → Φ (test hash))
    (hashes : List Text) : Φ (indirectHashes target test hashes transactions) := by
  induction transactions generalizing hashes with
  | nil => exact hΦ.pure
  | cons transaction rest ih =>
    have ih := ih fun t ht => htest t (List.mem_cons_of_mem _ ht)
    unfold indirectHashes
    refine hΦ.lift_bind fun hash? hhash => ?_
    cases hash? with
    | none => exact ih _
    | some hash =>
      exact hΦ.bind (htest transaction List.mem_cons_self hash hhash) fun passed => hΦ.ite (ih _) (ih _)

theorem traceReaches_closed (hcall : ∀ params, Φ (c.call "debug_traceTransaction" params)) (target : Json)
    (hash : Text) : Φ (traceReaches c target hash) := by
  unfold traceReaches
  refine hΦ.bind (hΦ.attemptOwn (Client.traceTransaction_closed hΦ hcall _)) fun traced => ?_
  cases traced with
  | error e => exact hΦ.bind hΦ.logFault fun _ => hΦ.pure
  | ok root => exact hΦ.lift

theorem receiptReaches_closed {hash : Text} (hcall : Φ (c.transactionReceipt (.str hash))) (target : Json) :
    Φ (receiptReaches c target hash) := by
  unfold receiptReaches
  refine hΦ.bind (hΦ.attemptOwn hcall) fun receipt => ?_
  cases receipt with
  | error e => exact hΦ.bind hΦ.logFault fun _ => hΦ.pure
  | ok receipt => exact hΦ.lift

theorem blockHashes_closed {s : Strategy} (hcall : ∀ method ∈ s.blockMethod?, ∀ params, Φ (c.call method params))
    (target block : Json) (transactions : List Json) : Φ (s.blockHashes c target block transactions) := by
  cases s with
  | traceBlock => exact traceBlockHashes_closed hΦ (hcall _ rfl) _ _ _
  | traceTransaction => exact indirectHashes_closed hΦ (fun _ _ _ _ => traceReaches_closed hΦ (hcall _ rfl) _ _) _
  | receiptLogs => exact indirectHashes_closed hΦ (fun _ _ _ _ => receiptReaches_closed hΦ (hcall _ rfl _) _) _
  | direct => exact hΦ.pure
  | traceFilter => exact hΦ.pure

theorem batchHashes_traceFilter_closed (hΨ : Leads @Ψ @Φ) {target first last : Json}
    (hcall : Ψ (c.traceFilter first last target)) : Ψ (traceFilter.batchHashes c target first last) := by
  refine hΨ.bind (hΨ.attemptOwn hcall) fun traced => ?_
  split
  · exact hΦ.bind hΦ.logWritten fun _ => hΦ.pure
  · exact hΦ.lift
  · exact hΦ.pure

end Strategy

/-! ## Blocks and batches -/

namespace Fetcher

variable {f : Fetcher} {s : Strategy}

section

variable (hΦ : Closed @Φ) (hΨ : Leads @Ψ @Φ)

include hΦ

theorem innerCalls_closed {n : Int} {transactions : List Json}
    (hhashes : Φ (s.blockHashes f.client (.str f.target) (.int n) transactions)) :
    Φ (f.innerCalls s n transactions) := by
  unfold innerCalls
  refine hΦ.bind (hΦ.attempt hhashes) fun outcome => ?_
  cases outcome with
  | error e => exact hΦ.bind hΦ.logWritten fun _ => hΦ.pure
  | ok hashes => exact hΦ.pure

theorem addInner_closed (n : Int) (found : OrderedMap Record) (inner : List (Text × Json)) :
    Φ (addInner n found inner) := by
  induction inner generalizing found with
  | nil => exact hΦ.pure
  | cons p rest ih =>
    unfold addInner
    refine hΦ.ite (ih _) ?_
    split
    · exact ih _
    · exact hΦ.bind hΦ.logWritten fun _ => ih _

theorem resolve_closed {hash : Text} (hcall : ∀ params, Φ (f.client.call "eth_getTransactionByHash" params)) :
    Φ (f.resolve hash) := by
  unfold resolve
  refine hΦ.bind (hΦ.attempt ?_) fun found => ?_
  · refine hΦ.bind (hcall _) fun v => hΦ.ite ?_ ?_
    · exact hΦ.bind hΦ.log fun _ => hΦ.pure
    · exact hΦ.bind hΦ.lift fun _ => hΦ.pure
  · cases found with
    | ok found => exact hΦ.pure
    | error e => exact hΦ.bind hΦ.logFault fun _ => hΦ.pure

theorem placeHash_closed (hcall : ∀ params, Φ (f.client.call "eth_getTransactionByHash" params))
    (results : List BlockResult) (hash : Text) : Φ (f.placeHash results hash) := by
  unfold placeHash
  refine hΦ.ite hΦ.pure ?_
  split
  · split
    · exact hΦ.pure
    · exact hΦ.bind hΦ.logFault fun _ => hΦ.pure
  · refine hΦ.bind (resolve_closed hΦ hcall) fun r? => ?_
    cases r? <;> exact hΦ.pure

theorem placeHashes_closed (hcall : ∀ params, Φ (f.client.call "eth_getTransactionByHash" params))
    (results : List BlockResult) (hashes : List Text) : Φ (f.placeHashes results hashes) := by
  induction hashes generalizing results with
  | nil => exact hΦ.pure
  | cons hash rest ih => exact hΦ.bind (placeHash_closed hΦ hcall results hash) fun _ => ih _

include hΨ

theorem contentOf_closed {n : Int} (hread : Ψ (f.client.blockByNumber (.int n) (.bool true))) : Ψ (f.contentOf n) := by
  unfold contentOf
  refine hΨ.bind hread fun v => hΦ.ite ?_ ?_
  · exact hΦ.bind hΦ.log fun _ => hΦ.pure
  · exact hΦ.bind hΦ.lift fun _ => hΦ.pure

theorem fetchBlock_closed {n : Int} (hread : Ψ (f.client.blockByNumber (.int n) (.bool true)))
    (hcall : ∀ method ∈ s.blockMethod?, ∀ params, Φ (f.client.call method params)) : Ψ (f.fetchBlock s n) := by
  unfold fetchBlock
  refine hΨ.bind (hΨ.attempt (contentOf_closed hΦ hΨ hread)) fun read => ?_
  rcases read with e | _ | content
  · exact hΦ.bind hΦ.logFault fun _ => hΦ.pure
  · exact hΦ.pure
  · refine hΦ.bind (innerCalls_closed hΦ (Strategy.blockHashes_closed hΦ hcall _ _ _)) fun inner => ?_
    refine hΦ.bind (addInner_closed hΦ _ _ _) fun matched => ?_
    exact hΦ.ite (hΦ.bind hΦ.logWritten fun _ => hΦ.pure) hΦ.pure

theorem mergeTrace_closed {first last : Int} {results : List BlockResult}
    (hread : Ψ (f.client.traceFilter (.int first) (.int last) (.str f.target)))
    (hcall : ∀ params, Φ (f.client.call "eth_getTransactionByHash" params)) :
    Ψ (f.mergeTrace .traceFilter results first last) := by
  unfold mergeTrace
  refine hΨ.bind (hΨ.attempt (Strategy.batchHashes_traceFilter_closed hΦ hΨ hread)) fun outcome => ?_
  cases outcome with
  | error e => exact hΦ.bind hΦ.logFault fun _ => hΦ.pure
  | ok hashes => exact placeHashes_closed hΦ hcall _ _

end

variable (hΦ : ClosedOutside @Φ)

include hΦ

theorem fetchBlocks_closed {blocks : List Int} (hblock : ∀ n ∈ blocks, Φ (f.fetchBlock s n)) :
    Φ (f.fetchBlocks s blocks) := by
  unfold fetchBlocks
  refine hΦ.bind hΦ.outside fun o => hΦ.bind (hΦ.mapEach fun n hn => ?_) fun _ => hΦ.pure
  exact hΦ.bind (hblock n ((o.schedule.perm blocks).mem_iff.mp hn)) fun _ => hΦ.pure

theorem fetchBatch_closed {first last : Int} (hblock : ∀ n, first ≤ n → n ≤ last → Φ (f.fetchBlock s n))
    (htrace : s = .traceFilter → ∀ results, Φ (f.mergeTrace .traceFilter results first last)) :
    Φ (f.fetchBatch s first last) := by
  unfold fetchBatch
  refine hΦ.bind (fetchBlocks_closed hΦ fun n hn => ?_) fun results => ?_
  · exact hblock n (mem_blocksBetween.mp hn).1 (mem_blocksBetween.mp hn).2
  · split
    · rename_i htraced
      have hs : s = .traceFilter := beq_iff_eq.mp htraced
      subst hs
      exact htrace rfl results
    · exact hΦ.pure

theorem fetchBatch_closed_of_calls (hread : ∀ n, Φ (f.client.blockByNumber (.int n) (.bool true)))
    (hcall : ∀ method ∈ s.methods, ∀ params, Φ (f.client.call method params)) (first last : Int) :
    Φ (f.fetchBatch s first last) := by
  refine fetchBatch_closed hΦ (fun n _ _ => ?_) fun hs results => ?_
  · exact fetchBlock_closed hΦ.toClosed hΦ.leads (hread n) fun method h => hcall method (Strategy.mem_methods h)
  · subst hs
    have htrace := Client.traceFilter_closed hΦ.toClosed (hcall _ (by simp [Strategy.methods]))
    exact mergeTrace_closed hΦ.toClosed hΦ.leads (htrace _ _ _) (hcall _ (by simp [Strategy.methods]))

/-! ## The fetch -/

theorem redraw_closed (p : Progress) : Φ p.redraw := by
  have hrender : Φ (p.render none) := by
    refine hΦ.bind hΦ.now fun time => hΦ.bind hΦ.lift fun text => ?_
    exact hΦ.bind hΦ.outside fun _ => hΦ.pure
  exact hΦ.bind hrender fun _ => hΦ.draw

theorem fetchBatches_closed {ps : List (Int × Int)} (hbatch : ∀ p ∈ ps, Φ (f.fetchBatch s p.1 p.2)) (position : Nat)
    (progress? : Option Progress) : Φ (f.fetchBatches s position progress? ps) := by
  induction ps generalizing position progress? with
  | nil =>
    unfold fetchBatches
    exact hΦ.ite (hΦ.bind hΦ.draw fun _ => hΦ.pure) hΦ.pure
  | cons p ps ih =>
    obtain ⟨hfirst, hps⟩ := List.forall_mem_cons.mp hbatch
    obtain ⟨first, last⟩ := p
    have hrest : ∀ next? results, Φ (do
        return results ++ (← f.fetchBatches s (position + 1) next? ps) : Act (List BlockResult)) :=
      fun next? results => hΦ.bind (ih hps _ next?) fun _ => hΦ.pure
    unfold fetchBatches
    refine hΦ.bind hΦ.log fun _ => hΦ.bind hfirst fun results => ?_
    cases progress? with
    | none => exact hΦ.ite (hΦ.bind hΦ.log fun _ => hrest _ _) (hrest _ _)
    | some bar =>
      have hdrawn : ∀ p : Progress, Φ (p.redraw >>= fun _ => do
          return results ++ (← f.fetchBatches s (position + 1) (some p) ps) : Act (List BlockResult)) :=
        fun p => hΦ.bind (redraw_closed hΦ p) fun _ => hrest _ _
      exact hΦ.ite (hΦ.bind hΦ.log fun _ => hdrawn _) (hdrawn _)

theorem logStatistics_closed (r : Fetched) : Φ (logStatistics r) := by
  unfold logStatistics
  refine hΦ.bind hΦ.log fun _ => hΦ.bind hΦ.log fun _ => hΦ.ite (hΦ.bind hΦ.log fun _ => ?_) ?_
  all_goals exact hΦ.ite hΦ.log hΦ.pure

theorem allBatches_closed {ps : List (Int × Int)} (hbatch : ∀ p ∈ ps, Φ (f.fetchBatch s p.1 p.2)) (way : Capability)
    (started : Binary64) (progress? : Option Progress) : Φ (do
      let blocks ← f.fetchBatches s 0 progress? ps
      let result := {
        records := mergedRecords blocks
        capability := way, blocks
        duration := (← Act.now).sub started : Fetched }
      logStatistics result
      return result : Act Fetched) := by
  refine hΦ.bind (fetchBatches_closed hΦ hbatch _ _) fun blocks => hΦ.bind hΦ.now fun ended => ?_
  exact hΦ.bind (logStatistics_closed hΦ _) fun _ => hΦ.pure

theorem fetchWith_closed {way : Capability} {first last : Number} (hbatch : ∀ a b size, first.index? = some a →
      last.index? = some b → ∀ p ∈ batches size a b, Φ (f.fetchBatch (.of way f.receiptFallback) p.1 p.2))
    (started : Binary64) : Φ (f.fetchWith way started first last) := by
  have hstart : ∀ rest : Option Progress → Act Fetched, (∀ progress?, Φ (rest progress?)) → Φ (do
      checkWhole [first, last, f.batchSize, f.concurrency]
      Act.logWritten .info none (f.rangeLine first last)
      let progress? ←
        if f.showProgress then some <$> Progress.start (← blockCount first last) 30
        else Act.pure none
      rest progress? : Act Fetched) := by
    intro rest hrest
    refine hΦ.bind hΦ.lift fun _ => hΦ.bind hΦ.logWritten fun _ => hΦ.ite ?_ (hΦ.bind hΦ.pure fun _ => hrest _)
    refine hΦ.bind hΦ.lift fun count => hΦ.bind (hΦ.map ?_) fun progress? => hrest progress?
    exact hΦ.bind hΦ.now fun _ => hΦ.pure
  unfold fetchWith
  refine hΦ.ite (hΦ.ite (hΦ.bind hΦ.log fun _ => ?_) (hΦ.bind hΦ.log fun _ => ?_)) ?_
  all_goals
    refine hstart _ fun progress? => ?_
    split
    · rename_i ha hb _
      exact allBatches_closed hΦ (hbatch _ _ _ ha hb) way started progress?
    · exact hΦ.fail

theorem capabilityFor_closed (hcall : ∀ method params, Φ (f.client.call method params)) (block : Number) :
    Φ (f.capabilityFor block) := by
  unfold capabilityFor
  split
  · exact hΦ.pure
  · exact Probe.select_closed hΦ.toClosed hcall _ _

/-- **A fetch** has a closed property, whatever it ends with, if its calls have it. -/
theorem fetch_closed (hcall : ∀ method params, Φ (f.client.call method params)) (first last : Json) :
    Φ (f.fetch first last) := by
  have hbatch : ∀ s first last, Φ (f.fetchBatch s first last) := fun s =>
    fetchBatch_closed_of_calls hΦ (fun n => Client.blockByNumber_closed hΦ.toClosed (hcall _) _ _)
      fun method _ => hcall method
  have hrun : Φ (f.run first last) := by
    unfold run
    split
    · exact hΦ.pure
    · refine hΦ.bind hΦ.now fun started => hΦ.bind (hΦ.attempt (capabilityFor_closed hΦ hcall _)) fun way => ?_
      cases way with
      | error e => exact hΦ.pure
      | ok way =>
        exact hΦ.bind (hΦ.attempt (fetchWith_closed hΦ (fun _ _ _ _ _ _ _ => hbatch _ _ _) started)) fun _ => hΦ.pure
  exact hΦ.bind hrun fun _ => hΦ.lift

end Fetcher
end AssertionReplay
