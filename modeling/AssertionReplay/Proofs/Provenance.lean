/-
Where the records of a fetch come from.

A record gets into the result of a block as a direct call, as a transaction
that a trace of the block names, or as one that a trace of the batch names,
found among the fetched ones or asked for by its hash (`Fetcher.Origin`). Only
on the last of these ways can it stand under another name than its own hash.
On each of them it was read from a transaction object, and so was every record
that a fetch returns (`fetch_from`), whatever the endpoint answers.
-/
import AssertionReplay.Proofs.Checksum
import AssertionReplay.Proofs.Detection
import AssertionReplay.Proofs.Lowercase
import AssertionReplay.Proofs.Merge
import AssertionReplay.Proofs.Numeral

namespace AssertionReplay

open Text

theorem OrderedMap.mem_of_mem_insert {m : OrderedMap α} {name : Text} {v : α} {p : Text × α}
    (h : p ∈ insert m name v) : p = (name, v) ∨ p ∈ m := by
  induction m with
  | nil => exact .inl (by simpa [insert] using h)
  | cons q m ih =>
    obtain ⟨n, w⟩ := q
    unfold insert at h
    split at h
    · rename_i hn
      have hp : p = (n, v) ∨ p ∈ m := by simpa using h
      rw [beq_iff_eq.mp hn] at hp
      exact hp.imp_right (List.mem_cons_of_mem _)
    · have hp : p = (n, w) ∨ p ∈ insert m name v := by simpa using h
      rcases hp with hp | hp
      · exact .inr (by rw [hp]; exact List.mem_cons_self)
      · exact (ih hp).imp_right (List.mem_cons_of_mem _)

/-! ## Records -/

/-- The record was read from an object, under a number of the block that was given or is its own. -/
def Record.FromObject (r : Record) : Prop :=
  ∃ (v : Json) (block? : Option Int), Record.ofTransaction v (block?.map .int) = .ok r

theorem Record.FromObject.readFrom {r : Record} (h : r.FromObject) :
    ∃ (members : List (Text × Json)) (block? : Option Int), Record.ReadFrom members (block?.map .int) r := by
  obtain ⟨v, block?, h⟩ := h
  cases v with
  | obj members => exact ⟨members, block?, Record.ofTransaction_eq_ok_iff.mp h⟩
  | _ => cases block? <;> cases h

theorem Record.FromObject.addresses {r : Record} (h : r.FromObject) :
    Address.IsChecksummed r.sender ∧ Address.IsChecksummed r.recipient := by
  obtain ⟨members, block?, hread⟩ := h.readFrom
  obtain ⟨sender, hsender, heq⟩ := hread.sender
  obtain ⟨recipient, hrecipient, heq'⟩ := hread.recipient
  exact ⟨heq ▸ Address.isChecksummed_of_parse hsender, heq' ▸ Address.isChecksummed_of_parse hrecipient⟩

theorem Record.hash_of_ofTransaction {v : Json} {n : Quantity} {r : Record} {hash : Text}
    (h : Record.ofTransaction v (some n) = .ok r) (hhash : v.member? "hash" = some (.str hash)) :
    r.hash = lower hash := by
  obtain ⟨members, rfl⟩ := Record.ofTransaction_obj h
  obtain ⟨t, ht, heq⟩ := (Record.ofTransaction_eq_ok_iff.mp h).hash
  rw [hhash] at ht
  cases ht
  exact heq

namespace Field

theorem quantity_cases {v : Json} {q : Quantity} (h : Field.quantity v = .ok q) :
    (∃ b, q = .flag b) ∨ ∃ n : Nat, q = .int n := by
  have hnat : ∀ n : Int, 0 ≤ n → ∃ m : Nat, Quantity.int n = .int m := fun n hn =>
    ⟨n.toNat, by rw [Int.toNat_of_nonneg hn]⟩
  unfold quantity at h
  split at h
  · cases h
    exact .inr ⟨0, rfl⟩
  · rename_i b
    cases h
    exact .inl ⟨b, rfl⟩
  · split at h
    · cases h
    · cases h
      exact .inr (hnat _ (by omega))
  · rename_i t
    rcases hread : quantityText t with e | n <;> rw [hread] at h <;> cases h
    exact .inr (hnat n (nonneg_of_quantityText hread))
  · cases h

end Field

/-! ## Names -/

namespace Strategy

open Act

theorem lower_of_traceHash? {target trace : Json} {hash : Text} (h : traceHash? target trace = .ok (some hash)) :
    lower hash = hash := by
  cases trace with
  | obj members =>
    unfold traceHash? at h
    dsimp only at h
    split at h
    · rename_i t ht
      split at h
      · cases h
      · split at h
        all_goals
          obtain ⟨recipient, -, h⟩ := bind_eq_ok_iff.mp h
          obtain ⟨same, -, h⟩ := bind_eq_ok_iff.mp h
          split at h <;> cases h
          exact lower_lower t
    · cases h
  | _ => cases h

theorem lower_of_traceHashes {target : Json} {traces : List Json} {hashes found : List Text}
    (hhashes : ∀ hash ∈ hashes, lower hash = hash) (h : traceHashes target hashes traces = .ok found) :
    ∀ hash ∈ found, lower hash = hash := by
  induction traces generalizing hashes with
  | nil =>
    cases h
    exact hhashes
  | cons trace rest ih =>
    obtain ⟨hash?, hhash, h⟩ := bind_eq_ok_iff.mp h
    cases hash? with
    | none => exact ih hhashes h
    | some hash =>
      refine ih (fun k hk => ?_) h
      rcases mem_addHash.mp hk with hk | rfl
      · exact hhashes k hk
      · exact lower_of_traceHash? hhash

theorem batchHashes_lower (o : Outside) (s : Strategy) (c : Client) (target first last : Json) :
    Yields o (s.batchHashes c target first last) fun hashes => ∀ hash ∈ hashes, lower hash = hash := by
  cases s with
  | traceFilter =>
    unfold batchHashes
    refine .bind .any fun traced _ => ?_
    split
    · exact .after_logWritten (.pure (by simp))
    · exact Yields.lift fun found h => lower_of_traceHashes (by simp) h
    · exact .pure (by simp)
  | _ => exact .pure (by simp)

end Strategy

namespace Fetcher

open Act

variable {o : Outside} {f : Fetcher} {s : Strategy}

/-- The transaction stands under its own hash. -/
def Hashed (p : Text × Json) : Prop := ∃ hash, p.2.member? "hash" = some (.str hash) ∧ lower hash = p.1

theorem Hashed.record_hash {p : Text × Json} (hp : Hashed p) {n : Quantity} {r : Record}
    (h : Record.ofTransaction p.2 (some n) = .ok r) : r.hash = p.1 := by
  obtain ⟨hash, hhash, heq⟩ := hp
  rw [Record.hash_of_ofTransaction h hhash, heq]

theorem withHashIn_picks (hashes : List Text) (transactions : List Json) :
    ∀ p ∈ withHashIn hashes transactions, Hashed p ∧ p.1 ∈ hashes ∧ p.2 ∈ transactions := by
  unfold withHashIn
  refine List.foldlRecOn (motive := fun found => ∀ p ∈ found, Hashed p ∧ p.1 ∈ hashes ∧ p.2 ∈ transactions)
    transactions _ (by simp) ?_
  intro found hfound transaction htransaction p hp
  split at hp
  · rename_i hash hhash
    split at hp
    · rename_i hnamed
      rcases OrderedMap.mem_of_mem_insert hp with rfl | hp
      · exact ⟨⟨hash, hhash, rfl⟩, by simpa using hnamed, htransaction⟩
      · exact hfound p hp
    · exact hfound p hp
  · exact hfound p hp

theorem innerCalls_picks (n : Int) (transactions : List Json) :
    Yields o (f.innerCalls s n transactions) fun inner => ∀ p ∈ inner, Hashed p ∧ p.2 ∈ transactions := by
  unfold innerCalls
  refine .bind .any fun outcome _ => ?_
  cases outcome with
  | error e => exact .after_logWritten (.pure (by simp))
  | ok hashes =>
    refine .pure fun p hp => ?_
    obtain ⟨hhashed, -, hmem⟩ := withHashIn_picks hashes transactions p hp
    exact ⟨hhashed, hmem⟩

theorem fetchedUnder?_hashed {hash : Text} {results : List BlockResult} {p : Int × Json}
    (h : fetchedUnder? hash results = some p) : Hashed (hash, p.2) := by
  have hfound := List.find?_some h
  split at hfound
  · rename_i t ht
    exact ⟨t, ht, by simpa using hfound⟩
  · cases hfound

/-! ## Blocks -/

/-- How a record comes under a name: it is that of a fetched transaction, under its hash, or it is what
a hash in lower case was looked up as, where the traces of a range are merged. -/
inductive Origin (f : Fetcher) (o : Outside) (s : Strategy) : Text × Record → Prop
  | fetched {v : Json} {n : Int} {r : Record} (h : Record.ofTransaction v (some (.int n)) = .ok r) :
      Origin f o s (r.hash, r)
  | lookedUp {hash : Text} {past : Journal} {r : Record} (hs : s = .traceFilter) (hlower : lower hash = hash)
      (h : (f.resolve hash o past).1 = .ok (some r)) : Origin f o s (hash, r)

/-- Every record of a map has an origin. -/
def Originated (f : Fetcher) (o : Outside) (s : Strategy) (m : OrderedMap Record) : Prop :=
  ∀ p ∈ m, f.Origin o s p

section

variable {n : Int} {I : Text × Record → Prop}

theorem insert_all {m : OrderedMap Record} (hm : ∀ p ∈ m, I p) {name : Text} {r : Record} (hr : I (name, r)) :
    ∀ p ∈ m.insert name r, I p := by
  intro p hp
  rcases OrderedMap.mem_of_mem_insert hp with rfl | hp
  · exact hr
  · exact hm p hp

/-- What holds of the record of each direct call holds of all that are found. -/
theorem directCalls_each {target : String} {transactions : List Json} {found m : OrderedMap Record}
    (hI : ∀ t ∈ transactions, ∀ recipient, Field.member t "to" = .ok recipient →
      Address.same recipient (.str target) = .ok true →
      ∀ r, Record.ofTransaction t (some (.int n)) = .ok r → I (r.hash, r))
    (hfound : ∀ p ∈ found, I p) (h : directCalls target n found transactions = .ok m) : ∀ p ∈ m, I p :=
  directCalls_invariant (I := fun m => ∀ p ∈ m, I p)
    (fun _ t ht recipient hto hsame r hr hm => insert_all hm (hI t ht recipient hto hsame r hr)) hfound h

theorem directCalls_all (hI : ∀ v r, Record.ofTransaction v (some (.int n)) = .ok r → I (r.hash, r))
    {target : String} {transactions : List Json} {found m : OrderedMap Record} (hfound : ∀ p ∈ found, I p)
    (h : directCalls target n found transactions = .ok m) : ∀ p ∈ m, I p :=
  directCalls_each (fun t _ _ _ _ r hr => hI t r hr) hfound h

/-- What holds of each record under the name of its transaction holds of all that are added. -/
theorem addInner_each {found : OrderedMap Record} (hfound : ∀ p ∈ found, I p) {inner : List (Text × Json)}
    (hI : ∀ p ∈ inner, ∀ r, Record.ofTransaction p.2 (some (.int n)) = .ok r → I (p.1, r)) :
    Yields o (addInner n found inner) fun m => ∀ p ∈ m, I p :=
  addInner_invariant (I := fun m => ∀ p ∈ m, I p) (fun _ p hp _ r hr hm => insert_all hm (hI p hp r hr))
    hfound

theorem addInner_all (hI : ∀ v r, Record.ofTransaction v (some (.int n)) = .ok r → I (r.hash, r))
    {found : OrderedMap Record} (hfound : ∀ p ∈ found, I p) {inner : List (Text × Json)}
    (hinner : ∀ p ∈ inner, Hashed p) : Yields o (addInner n found inner) fun m => ∀ p ∈ m, I p := by
  refine addInner_each hfound fun p hp r hr => ?_
  have hrecord := hI _ _ hr
  rwa [(hinner p hp).record_hash hr] at hrecord

/-- What holds of the records of all transactions, read under a number that the block was read under,
holds of the records of the block. -/
theorem fetchBlock_all (hI : ∀ past c j, f.contentOf n o past = (.ok (some c), j) →
      ∀ v r, Record.ofTransaction v (some (.int c.block)) = .ok r → I (r.hash, r)) :
    Yields o (f.fetchBlock s n) fun b => ∀ p ∈ b.matched, I p := by
  have hnone : ∀ p ∈ ([] : OrderedMap Record), I p := by simp
  have hcontent : Yields o (f.contentOf n) fun c? => ∀ c, c? = some c → (∀ p ∈ c.direct, I p) ∧
      ∀ v r, Record.ofTransaction v (some (.int c.block)) = .ok r → I (r.hash, r) := by
    refine (Ends.and_yields Yields.returned (contentOf_matched n)).imp fun c? h c hc => ?_
    obtain ⟨⟨past, hpast⟩, hmatched⟩ := h
    have hrecords := hI past c _ (Prod.ext (hpast.trans (congrArg _ hc)) rfl)
    exact ⟨directCalls_all hrecords hnone (hmatched c hc), hrecords⟩
  unfold fetchBlock
  refine .bind hcontent.attempt fun read hread => ?_
  rcases read with e | _ | c
  · exact .after_logFault (.pure hnone)
  · exact .pure hnone
  · obtain ⟨hdirect, hrecords⟩ := hread _ rfl c rfl
    refine .bind (innerCalls_picks _ _) fun inner hinner => ?_
    refine .bind (addInner_all hrecords hdirect fun p hp => (hinner p hp).1) fun matched hmatched => ?_
    split
    · exact .after_logWritten (.pure hmatched)
    · exact .pure hmatched

end

theorem fetchBlock_from (n : Int) : Yields o (f.fetchBlock s n) fun b => f.Originated o s b.matched :=
  fetchBlock_all fun _ _ _ _ _ _ h => .fetched h

/-! ## The trace of a batch -/

/-- Every record of some results satisfies `I`, in its block and under its name. -/
def AllRecords (I : Int → Text × Record → Prop) (results : List BlockResult) : Prop :=
  ∀ b ∈ results, ∀ p ∈ b.matched, I b.block p

/-- What a trace of a batch adds satisfies `I`: the record of a fetched transaction, in the block that was
asked for, and what a hash in lower case was looked up as, in the block that it names. -/
structure Admits (f : Fetcher) (o : Outside) (I : Int → Text × Record → Prop) : Prop where
  fetched : ∀ {v : Json} {n : Int} {r : Record}, Record.ofTransaction v (some (.int n)) = .ok r →
    I n (r.hash, r)
  lookedUp : ∀ {hash : Text} {past : Journal} {r : Record}, lower hash = hash →
    (f.resolve hash o past).1 = .ok (some r) → I r.block.toInt (hash, r)

theorem admits_origin (hs : s = .traceFilter) : f.Admits o fun _ => f.Origin o s :=
  ⟨fun h => .fetched h, fun hlower h => .lookedUp hs hlower h⟩

variable {I : Int → Text × Record → Prop} {results : List BlockResult}

theorem putRecord_all (h : AllRecords I results) {n : Int} {hash : Text} {r : Record} (hr : I n (hash, r)) :
    AllRecords I (putRecord results n hash r) := by
  intro b hb
  obtain ⟨b', hb', rfl⟩ := List.mem_map.mp hb
  split
  · rename_i hn
    rw [← beq_iff_eq.mp hn] at hr
    exact insert_all (h b' hb') hr
  · exact h b' hb'

theorem placeHash_all (hI : f.Admits o I) (h : AllRecords I results) {hash : Text}
    (hlower : lower hash = hash) : Yields o (f.placeHash results hash) (AllRecords I) := by
  unfold placeHash
  split
  · exact .pure h
  · split
    · rename_i n transaction hfound
      split
      · rename_i r hr
        have hrecord := hI.fetched hr
        rw [(fetchedUnder?_hashed hfound).record_hash hr] at hrecord
        exact .pure (putRecord_all h hrecord)
      · exact .after_logFault (.pure h)
    · refine .bind Yields.returned fun found hfound => ?_
      obtain ⟨past, hpast⟩ := hfound
      cases found with
      | some r => exact .pure (putRecord_all h (hI.lookedUp hlower hpast))
      | none => exact .pure h

/-- **What is preserved when a hash is placed**, the trace of a batch preserves. -/
theorem mergeTrace_preserves {P : List BlockResult → Prop}
    (hplace : ∀ results hash, P results → lower hash = hash → Yields o (f.placeHash results hash) P)
    (h : P results) (first last : Int) : Yields o (f.mergeTrace s results first last) P := by
  have hall : ∀ hashes : List Text, (∀ hash ∈ hashes, lower hash = hash) → ∀ results, P results →
      Yields o (f.placeHashes results hashes) P := by
    intro hashes hlower
    induction hashes with
    | nil => exact fun _ h => .pure h
    | cons hash rest ih =>
      rw [List.forall_mem_cons] at hlower
      exact fun results h => .bind (hplace results hash h hlower.1) (ih hlower.2)
  unfold mergeTrace
  refine .bind (Strategy.batchHashes_lower o s _ _ _ _).attempt fun named hnamed => ?_
  cases named with
  | error e => exact .after_logFault (.pure h)
  | ok hashes => exact hall _ (fun hash hhash => hnamed hashes rfl hash (List.mem_mergeSort.mp hhash)) results h

/-- What holds of the records of each block, and of what a trace of the batch adds, holds of the batch. -/
theorem fetchBatch_all (hI : s = .traceFilter → f.Admits o I)
    (hblock : ∀ n, Yields o (f.fetchBlock s n) fun b => ∀ p ∈ b.matched, I b.block p) (first last : Int) :
    Yields o (f.fetchBatch s first last) (AllRecords I) := by
  unfold fetchBatch
  refine .bind (P := AllRecords I) ?_ fun results hresults => ?_
  · refine (fetchBlocks_ends fun n _ => hblock n).imp fun _ h b hb => ?_
    obtain ⟨_, -, hall⟩ := exists_of_forall₂ h.flip hb
    exact hall
  · split
    · rename_i hs
      have hadmits := hI (beq_iff_eq.mp hs)
      exact mergeTrace_preserves (fun _ _ h hlower => placeHash_all hadmits h hlower) hresults first last
    · exact .pure hresults

theorem fetchBatch_from (first last : Int) :
    Yields o (f.fetchBatch s first last) (AllRecords fun _ => f.Origin o s) :=
  fetchBatch_all admits_origin fetchBlock_from first last

/-! ## A fetch -/

variable {P : BlockResult → Prop}

theorem fetchBatches_yields
    (hbatch : ∀ first last, Yields o (f.fetchBatch s first last) fun results => ∀ b ∈ results, P b)
    (position : Nat) (progress? : Option Progress) (ps : List (Int × Int)) :
    Yields o (f.fetchBatches s position progress? ps) fun results => ∀ b ∈ results, P b := by
  induction ps generalizing position progress? with
  | nil =>
    have hnone : ∀ b ∈ ([] : List BlockResult), P b := by simp
    unfold fetchBatches
    split
    · exact .bind .any fun _ _ => .pure hnone
    · exact .pure hnone
  | cons p ps ih =>
    obtain ⟨first, last⟩ := p
    rw [fetchBatches]
    refine .after_log (.bind (hbatch first last) fun results hresults => ?_)
    have hrest : ∀ next? : Option Progress,
        Yields o (do return results ++ (← f.fetchBatches s (position + 1) next? ps))
          fun results => ∀ b ∈ results, P b := by
      intro next?
      refine .bind (ih (position + 1) next?) fun rest hrest => .pure ?_
      intro b hb
      exact (List.mem_append.mp hb).elim (hresults b) (hrest b)
    cases progress? with
    | none =>
      dsimp only [Option.map_none]
      split
      · exact .after_log (hrest none)
      · exact hrest none
    | some bar =>
      dsimp only [Option.map_some]
      split
      · exact .after_log (.bind .any fun _ _ => hrest _)
      · exact .bind .any fun _ _ => hrest _

/-- The records are those of the results, and of each result holds what the way of tracing tells. -/
def Gathers (P : Capability → BlockResult → Prop) (r : Fetched) : Prop :=
  r.records = mergedRecords r.blocks ∧ ∀ b ∈ r.blocks, P r.capability b

theorem allBatches_yields {P : Capability → BlockResult → Prop} (cap : Capability) (started : Binary64)
    (progress? : Option Progress) (ps : List (Int × Int))
    (hbatch : ∀ first last, Yields o (f.fetchBatch s first last) fun results => ∀ b ∈ results, P cap b) :
    Yields o (do
      let blocks ← f.fetchBatches s 0 progress? ps
      let result := {
        records := mergedRecords blocks
        capability := cap, blocks
        duration := (← Act.now).sub started : Fetched }
      logStatistics result
      return result) (fun r => r.capability = cap ∧ Gathers P r) := by
  refine .bind (fetchBatches_yields hbatch 0 progress? ps) fun blocks hblocks => ?_
  exact .bind .any fun ended _ => .bind .any fun _ _ => .pure ⟨rfl, rfl, hblocks⟩

theorem fetchWith_yields {P : Capability → BlockResult → Prop} (cap : Capability) (started : Binary64)
    (first last : Number) (hbatch : ∀ first last, Yields o (f.fetchBatch (.of cap f.receiptFallback) first last)
      fun results => ∀ b ∈ results, P cap b) :
    Yields o (f.fetchWith cap started first last) (fun r => r.capability = cap ∧ Gathers P r) := by
  have hstart : ∀ {R : Fetched → Prop} (rest : Option Progress → Act Fetched),
      (∀ progress?, Yields o (rest progress?) R) → Yields o (do
        checkWhole [first, last, f.batchSize, f.concurrency]
        Act.logWritten .info none (f.rangeLine first last)
        let progress? ←
          if f.showProgress then some <$> Progress.start (← blockCount first last) 30
          else Act.pure none
        rest progress?) R := by
    intro R rest hrest
    refine .bind .any fun _ _ => .after_logWritten ?_
    dsimp only
    split
    · exact .bind .any fun _ _ => .bind .any fun progress? _ => hrest progress?
    · exact .bind .any fun progress? _ => hrest progress?
  unfold fetchWith
  dsimp only
  split
  · split <;> refine .after_log (hstart _ fun progress? => ?_) <;> split
    · exact allBatches_yields cap started progress? _ hbatch
    · exact fun _ => trivial
    · exact allBatches_yields cap started progress? _ hbatch
    · exact fun _ => trivial
  · refine hstart _ fun progress? => ?_
    split
    · exact allBatches_yields cap started progress? _ hbatch
    · exact fun _ => trivial

/-- **What holds of the batches holds of a fetch**, whichever way of tracing is settled on. -/
theorem fetch_yields {P : Capability → BlockResult → Prop} (f : Fetcher) (o : Outside) (first last : Json)
    (hbatch : ∀ cap first last, Yields o (f.fetchBatch (.of cap f.receiptFallback) first last)
      fun results => ∀ b ∈ results, P cap b) : Yields o (f.fetch first last) (Gathers P) := by
  unfold fetch
  refine .bind (P := fun p => ∀ r, p.2 = .ok r → Gathers P r) ?_ fun p hp => ?_
  · unfold run
    split
    · exact .pure (by simp)
    · refine .bind .any fun started _ => .bind .any fun capability _ => ?_
      cases capability with
      | error e => exact .pure (by simp)
      | ok capability =>
        exact .bind (fetchWith_yields capability started _ _ (hbatch capability)).attempt fun ended hended =>
          .pure fun r hr => (hended r hr).2
  · exact Yields.lift (r := p.2) fun r hr => hp r hr

/-- Every record of a fetch has an origin. -/
theorem fetch_origins (f : Fetcher) (o : Outside) (first last : Json) : Yields o (f.fetch first last)
    (Gathers fun cap b => f.Originated o (.of cap f.receiptFallback) b.matched) :=
  fetch_yields f o first last fun _ => fetchBatch_from

/-! ## Records that were read -/

theorem resolve_from (hash : Text) : Yields o (f.resolve hash) fun r? => ∀ r, r? = some r → r.FromObject := by
  unfold resolve
  refine .bind (Yields.attempt (P := fun r? => ∀ r, r? = some r → r.FromObject) ?_) fun found hfound => ?_
  · refine .bind .any fun transaction _ => ?_
    split
    · exact .after_log (.pure (by simp))
    · refine .bind (P := Record.FromObject) (Yields.lift fun r hr => ⟨transaction, none, hr⟩) fun r hr => .pure ?_
      intro r' h
      cases h
      exact hr
  · cases found with
    | error e => exact .after_logFault (.pure (by simp))
    | ok found => exact .pure (hfound found rfl)

theorem Origin.fromObject {p : Text × Record} (h : f.Origin o s p) : p.2.FromObject := by
  cases h with
  | @fetched v n r h => exact ⟨v, some n, h⟩
  | lookedUp _ _ h => exact (resolve_from _).ok (Prod.ext h rfl) _ rfl

/-- **Every record that a fetch returns was read from a transaction object.** -/
theorem fetch_from (f : Fetcher) (o : Outside) (first last : Json) :
    Yields o (f.fetch first last) fun r => ∀ record ∈ r.records, record.FromObject := by
  refine (fetch_origins f o first last).imp fun r h record hrecord => ?_
  obtain ⟨hrecords, horigins⟩ := h
  rw [hrecords] at hrecord
  obtain ⟨b, hb, p, hp, rfl⟩ := mem_mergedRecords hrecord
  exact (horigins b hb p hp).fromObject

end Fetcher
end AssertionReplay
