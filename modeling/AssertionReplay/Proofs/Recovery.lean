/-
What the trace of a batch adds.

The hashes that a trace names are placed one after another. Each step keeps
that the results hold the direct calls of the blocks that were read, and the
transactions of all hashes placed so far (`placeHash_matches`): a hash that is
there already changes nothing, one of a block that was read is found among its
transactions, and one of a lost block is asked for by hash and put into the
result of its own block.
-/
import AssertionReplay.Proofs.Matched

namespace AssertionReplay

open Text

theorem Text.mem_sorted {ts : List Text} {t : Text} : t ∈ Text.sorted ts ↔ t ∈ ts := List.mem_mergeSort

namespace Fetcher

variable {o : Outside} {f : Fetcher} {chain : Chain} {lost : Int → Bool} {blocks : List Int}
  {results : List BlockResult} {Q : Fault → Journal → Prop}

/-- What touches once some hashes are placed: the direct calls of blocks that were read, and the
transactions of these hashes. -/
def placed (address : Text) (lost : Int → Bool) (hashes : List Text) (n : Int) (t : Mined) : Bool :=
  (!lost n && t.calls address) || hashes.contains t.key

theorem placed_cons {address : Text} {hashes : List Text} {hash : Text} {n : Int} {t : Mined} :
    placed address lost (hash :: hashes) n t = (placed address lost hashes n t || t.key == hash) := by
  rw [placed, placed, List.contains_cons, Bool.or_assoc, Bool.or_comm (t.key == hash)]

/-- A hash tells one transaction of a block. -/
theorem filter_key {ts : List Mined} (hkeys : (ts.map Mined.key).Nodup) {t : Mined} (ht : t ∈ ts) :
    ts.filter (fun u => u.key == t.key) = [t] := by
  induction ts with
  | nil => simp at ht
  | cons u us ih =>
    rw [List.map_cons, List.nodup_cons] at hkeys
    rcases List.mem_cons.mp ht with rfl | ht
    · have hnone : us.filter (fun u => u.key == t.key) = [] := by
        simp only [List.filter_eq_nil_iff, beq_iff_eq]
        exact fun u hu hk => hkeys.1 (hk ▸ List.mem_map_of_mem hu)
      rw [List.filter_cons, if_pos (by simp), hnone]
    · have hne : ¬(u.key == t.key) = true := by
        simp only [beq_iff_eq]
        exact fun hk => hkeys.1 (hk ▸ List.mem_map_of_mem ht)
      rw [List.filter_cons, if_neg hne, ih hkeys.2 ht]

theorem entries_add_perm {p : Mined → Bool} {ts : List Mined} (hkeys : (ts.map Mined.key).Nodup)
    (hinj : ∀ u ∈ ts, ∀ t ∈ ts, u.key = t.key → u = t) {t : Mined} (ht : t ∈ ts) (hp : p t = false) :
    (entries p ts ++ [t.entry]).Perm (entries (fun u => p u || u.key == t.key) ts) := by
  have honly : ts.filter (fun u => !p u && u.key == t.key) = [t] := by
    rw [← filter_key hkeys ht]
    refine List.filter_congr fun u hu => ?_
    by_cases hk : u.key = t.key
    · rw [hinj u hu t ht hk, hp]
      simp
    · simp [hk]
  have h := entries_append_perm p (fun u => u.key == t.key) ts
  simp only [entries, honly] at h ⊢
  exact h

/-! ## Where a hash is found -/

/-- The results of blocks of the chain. -/
abbrev Matching (chain : Chain) (touching : Int → Mined → Bool) (lost : Int → Bool) (blocks : List Int)
    (results : List BlockResult) : Prop :=
  List.Forall₂ (chain.Matches touching lost) blocks results

variable {touching : Int → Mined → Bool} {n m : Int} {t : Mined}

theorem Matches_contains {r : BlockResult} (h : chain.Matches touching lost n r) (ht : t ∈ chain.block m) :
    r.matched.contains t.key = true ↔ n = m ∧ touching n t = true := by
  rw [OrderedMap.contains_iff, (h.matched.map (·.1)).mem_iff, mem_keys_entries]
  constructor
  · intro h
    obtain ⟨u, hu, htouch, hk⟩ := h
    obtain ⟨rfl, rfl⟩ := Chain.key_inj hu ht hk
    exact ⟨rfl, htouch⟩
  · intro h
    obtain ⟨rfl, htouch⟩ := h
    exact ⟨t, ht, htouch, rfl⟩

theorem any_contains (h : Matching chain touching lost blocks results) (ht : t ∈ chain.block m)
    (hm : m ∈ blocks) : (results.any fun r => r.matched.contains t.key) = touching m t := by
  rw [Bool.eq_iff_iff, List.any_eq_true]
  constructor
  · intro h
    obtain ⟨r, hr, hcontains⟩ := h
    obtain ⟨n, hn, hmatches⟩ := exists_of_forall₂ h.flip hr
    obtain ⟨rfl, htouch⟩ := (Matches_contains hmatches ht).mp hcontains
    exact htouch
  · intro htouch
    obtain ⟨r, hr, hmatches⟩ := exists_of_forall₂ h hm
    exact ⟨r, hr, (Matches_contains hmatches ht).mpr ⟨rfl, htouch⟩⟩

theorem mem_transactions (h : Matching chain touching lost blocks results) {p : Int × Json} :
    p ∈ (results.flatMap fun r => r.transactions.map fun t => (r.block, t)) ↔
      ∃ n ∈ blocks, lost n = false ∧ ∃ t ∈ chain.block n, p = (n, t.object) := by
  simp only [List.mem_flatMap, List.mem_map]
  constructor
  · intro h
    obtain ⟨r, hr, v, hv, rfl⟩ := h
    obtain ⟨n, hn, hmatches⟩ := exists_of_forall₂ h.flip hr
    have hmatches : chain.Matches touching lost n r := hmatches
    rw [hmatches.transactions] at hv
    split at hv
    · cases hv
    · rename_i hlost
      obtain ⟨t, ht, rfl⟩ := List.mem_map.mp hv
      exact ⟨n, hn, by simpa using hlost, t, ht, by rw [hmatches.block]⟩
  · intro h
    obtain ⟨n, hn, hlost, t, ht, rfl⟩ := h
    obtain ⟨r, hr, hmatches⟩ := exists_of_forall₂ h hn
    refine ⟨r, hr, t.object, ?_, by rw [hmatches.block]⟩
    rw [hmatches.transactions, if_neg (by simp [hlost])]
    exact List.mem_map_of_mem ht

theorem of_fetchedUnder? (h : Matching chain touching lost blocks results) (ht : t ∈ chain.block m)
    {p : Int × Json} (hp : fetchedUnder? t.key results = some p) : lost m = false ∧ p = (m, t.object) := by
  unfold fetchedUnder? at hp
  have hmem := List.mem_reverse.mp (List.mem_of_find?_eq_some hp)
  obtain ⟨n, hn, hlost, u, hu, rfl⟩ := (mem_transactions h).mp hmem
  obtain ⟨i, hi⟩ := Chain.at_of_mem hu
  have hkey : (lower u.hash == t.key) = true := by simpa only [hi.hash] using List.find?_some hp
  rw [beq_iff_eq] at hkey
  obtain ⟨rfl, rfl⟩ := Chain.key_inj hu ht hkey
  exact ⟨hlost, rfl⟩

theorem fetchedUnder?_eq_some (h : Matching chain touching lost blocks results) (ht : t ∈ chain.block m)
    (hm : m ∈ blocks) (hlost : lost m = false) : fetchedUnder? t.key results = some (m, t.object) := by
  rcases hp : fetchedUnder? t.key results with _ | p
  · unfold fetchedUnder? at hp
    obtain ⟨i, hi⟩ := Chain.at_of_mem ht
    have hmem := List.mem_reverse.mpr ((mem_transactions h).mpr ⟨m, hm, hlost, t, ht, rfl⟩)
    have hnot : ¬(lower t.hash == t.key) = true := by
      simpa only [hi.hash] using List.find?_eq_none.mp hp _ hmem
    exact absurd (beq_self_eq_true t.key) hnot
  · rw [(of_fetchedUnder? h ht hp).2]

theorem fetchedUnder?_eq_none (h : Matching chain touching lost blocks results) (ht : t ∈ chain.block m)
    (hlost : lost m = true) : fetchedUnder? t.key results = none := by
  rcases hp : fetchedUnder? t.key results with _ | p
  · rfl
  · rw [(of_fetchedUnder? h ht hp).1] at hlost
    cases hlost

/-! ## Placing the hashes -/

/-- The record of one more transaction, put into the result of its block. -/
theorem putRecord_matches (h : Matching chain touching lost blocks results) (ht : t ∈ chain.block m)
    (htouch : touching m t = false) :
    Matching chain (fun n u => touching n u || u.key == t.key) lost blocks
      (putRecord results m t.key t.record) := by
  rw [Matching, putRecord, List.forall₂_map_right_iff]
  refine h.imp fun n r hmatches => ?_
  have hblock := hmatches.block
  by_cases hn : n = m
  · subst hn
    rw [if_pos (by simpa using hblock)]
    refine ⟨hblock, hmatches.ok, hmatches.transactions, ?_⟩
    have hnew : t.key ∉ r.matched.map (·.1) := by
      rw [← OrderedMap.contains_iff, Matches_contains hmatches ht, htouch]
      simp
    have hinj : ∀ u ∈ chain.block n, ∀ t ∈ chain.block n, u.key = t.key → u = t :=
      fun u hu t ht hk => (Chain.key_inj hu ht hk).2
    dsimp only
    rw [OrderedMap.insert_new hnew]
    exact (hmatches.matched.append_right _).trans (entries_add_perm (chain.nodup_keys n) hinj ht htouch)
  · rw [if_neg (by simpa [hblock] using hn)]
    refine hmatches.congr fun u hu => ?_
    have hk : u.key ≠ t.key := fun hk => hn (Chain.key_inj hu ht hk).1
    simp [hk]

/-- What a hash is looked up as, whether or not it is the hash of the transaction that is answered. -/
theorem resolve_gets {hash : Text} {v : Json} {r : Record}
    (hgets : f.client.Gets o "eth_getTransactionByHash" (.arr [.str hash]) v) (hgiven : v.isGiven = true)
    (hread : Record.ofTransaction v none = .ok r) : Act.Ends o (f.resolve hash) (· = some r) Q := by
  have hlook : Act.Ends o (do
      let transaction ← f.client.transactionByHash (.str hash)
      if !transaction.isGiven then
        Act.log .warning ("Transaction " ++ hash ++ " not found, skipped")
        return none
      return some (← Record.ofTransaction transaction none)) (· = some r) fun _ _ => False := by
    refine .bind_eq (a := v) hgets.ends ?_
    rw [hgiven, if_neg (by simp), hread, Act.lift_ok_bind]
    exact .pure rfl
  unfold resolve
  refine .bind (.attempt (R := fun found => found = .ok (some r)) (hlook.mono ?_ fun _ _ h => h.elim)) ?_
  · intro _ heq
    subst heq
    rfl
  · intro _ heq
    subst heq
    exact .pure rfl

theorem resolve_ends {i : Nat} (hat : t.At n i) (h : LooksUp o f.client t) :
    Act.Ends o (f.resolve t.key) (· = some t.record) Q :=
  resolve_gets h hat.isGiven hat.record_by_hash

/-- A hash of no block that was fetched is put where the look-up says. -/
theorem placeHash_resolved {hash : Text} {r : Record} {results : List BlockResult}
    (hnew : (results.any fun b => b.matched.contains hash) = false) (hnone : fetchedUnder? hash results = none)
    (hresolve : Act.Ends o (f.resolve hash) (· = some r) Q) :
    Act.Ends o (f.placeHash results hash) (· = putRecord results r.block.toInt hash r) Q := by
  unfold placeHash
  rw [hnew, if_neg (by simp), hnone]
  exact .bind_eq hresolve (.pure rfl)

/-- **Placing a hash.** The record of a transaction of the batch is put where it belongs, unless it is
there already. -/
theorem placeHash_matches (h : Matching chain touching lost blocks results) (ht : t ∈ chain.block m)
    (hm : m ∈ blocks) (hlook : lost m = true → LooksUp o f.client t) :
    Act.Ends o (f.placeHash results t.key)
      (Matching chain (fun n u => touching n u || u.key == t.key) lost blocks) Q := by
  obtain ⟨i, hi⟩ := Chain.at_of_mem ht
  have hany := any_contains h ht hm
  cases htouch : touching m t with
  | true =>
    unfold placeHash
    rw [hany, htouch, if_pos rfl]
    refine .pure (h.imp fun n r hmatches => hmatches.congr fun u hu => ?_)
    by_cases hk : u.key = t.key
    · obtain ⟨rfl, rfl⟩ := Chain.key_inj hu ht hk
      simp [htouch]
    · simp [hk]
  | false =>
    have hput := putRecord_matches h ht htouch
    cases hlost : lost m with
    | false =>
      unfold placeHash
      rw [hany, htouch, if_neg (by simp), fetchedUnder?_eq_some h ht hm hlost]
      dsimp only
      rw [hi.record]
      exact .pure hput
    | true =>
      refine (placeHash_resolved (hany.trans htouch) (fetchedUnder?_eq_none h ht hlost)
        (resolve_ends hi (hlook hlost))).imp fun _ hplaced => ?_
      rw [hplaced, hi.record_block]
      exact hput

theorem placeHashes_matches {address : Text} {hashes done : List Text}
    (h : Matching chain (placed address lost done) lost blocks results)
    (hhashes : ∀ hash ∈ hashes, ∃ m ∈ blocks, ∃ t ∈ chain.block m, t.key = hash ∧
      (lost m = true → LooksUp o f.client t)) :
    Act.Ends o (f.placeHashes results hashes)
      (Matching chain (placed address lost (hashes.reverse ++ done)) lost blocks) Q := by
  induction hashes generalizing results done with
  | nil => exact .pure h
  | cons hash rest ih =>
    obtain ⟨m, hm, t, ht, rfl, hlook⟩ := hhashes hash (by simp)
    refine .bind (placeHash_matches h ht hm hlook) fun results' h' => ?_
    have hdone : (fun n u => placed address lost done n u || u.key == t.key) =
        placed address lost (t.key :: done) := by
      funext n u
      exact placed_cons.symm
    rw [hdone] at h'
    refine (ih h' fun hash hmem => hhashes hash (by simp [hmem])).imp fun results'' h'' => ?_
    simpa using h''

/-! ## A batch -/

theorem Matching.congr {touching' : Int → Mined → Bool} (h : Matching chain touching lost blocks results)
    (heq : ∀ n ∈ blocks, ∀ t ∈ chain.block n, touching n t = touching' n t) :
    Matching chain touching' lost blocks results := by
  have hmem : List.Forall₂ (fun n r => n ∈ blocks ∧ chain.Matches touching lost n r) blocks results :=
    (List.forall₂_and_left blocks results).mpr ⟨fun n hn => hn, h⟩
  exact hmem.imp fun n r h => h.2.congr (heq n h.1)

/-- The blocks of a batch, from what the strategy finds in each. -/
theorem fetchBlocks_matches {inner : Int → Mined → Bool} {first last : Int} (h0 : 0 ≤ first)
    (hserved : chain.Served o f.client lost first last)
    (hfinds : ∀ n, first ≤ n → n ≤ last → s.Finds o f.client f.target n (chain.block n) (inner n))
    (htouch : ∀ n, ∀ t ∈ chain.block n, touching n t = (!lost n && (t.calls f.target || inner n t))) :
    Act.Ends o (f.fetchBlocks s (blocksBetween first last))
      (Matching chain touching lost (blocksBetween first last)) Q := by
  refine fetchBlocks_ends fun n hmem => ?_
  obtain ⟨hfirst, hlast⟩ := mem_blocksBetween.mp hmem
  have hserved := hserved n hfirst hlast
  have htouch := htouch n
  cases hl : lost n with
  | true =>
    rw [hl, if_pos rfl] at hserved
    simp only [hl, Bool.not_true, Bool.false_and] at htouch
    exact fetchBlock_misses hl hserved htouch
  | false =>
    rw [hl, if_neg (by simp)] at hserved
    simp only [hl, Bool.not_false, Bool.true_and] at htouch
    exact fetchBlock_gives (by omega) hl hserved (hfinds n hfirst hlast) htouch

/-- **The trace of a batch.** What it adds to the direct calls is every other transaction that touches the
target, those of lost blocks included. -/
theorem mergeTrace_matches {first last : Int} {results : List BlockResult}
    (hresults : Matching chain (placed f.target lost []) lost (blocksBetween first last) results)
    (htraces : ∃ traces, f.client.Gets o "trace_filter" (filterParams f.target first last) (.arr traces) ∧
      Traces chain f.target first last traces)
    (hlost : ∀ n, first ≤ n → n ≤ last → lost n = true → ∀ t ∈ chain.block n,
      (t.calls f.target = true → t.reaches f.target = true) ∧ LooksUp o f.client t) :
    Act.Ends o (f.mergeTrace .traceFilter results first last)
      (Matching chain (fun _ t => t.calls f.target || t.reaches f.target) lost (blocksBetween first last)) Q := by
  obtain ⟨traces, hgets, htraces⟩ := htraces
  unfold mergeTrace
  refine .bind (.attempt (R := fun r => ∃ hashes, r = .ok hashes ∧ ∀ k, k ∈ hashes ↔
    ∃ n t, first ≤ n ∧ n ≤ last ∧ t ∈ chain.block n ∧ t.reaches f.target = true ∧ t.key = k)
    ((Strategy.batchHashes_ends hgets htraces).imp fun hashes h => ⟨hashes, rfl, h⟩)) ?_
  intro _ houtcome
  obtain ⟨hashes, rfl, hmem⟩ := houtcome
  refine (placeHashes_matches hresults ?_).imp fun results' h' => h'.congr ?_
  · intro hash hhash
    obtain ⟨n, t, hfirst, hlast, ht, -, hkey⟩ := (hmem hash).mp (Text.mem_sorted.mp hhash)
    exact ⟨n, mem_blocksBetween.mpr ⟨hfirst, hlast⟩, t, ht, hkey, fun hl => (hlost n hfirst hlast hl t ht).2⟩
  · intro n hblock t ht
    obtain ⟨hfirst, hlast⟩ := mem_blocksBetween.mp hblock
    have hin : ((Text.sorted hashes).reverse ++ []).contains t.key = t.reaches f.target := by
      rw [Bool.eq_iff_iff, List.contains_iff_mem, List.append_nil, List.mem_reverse, Text.mem_sorted, hmem]
      constructor
      · intro h
        obtain ⟨m, u, -, -, hu, hreaches, hkey⟩ := h
        obtain ⟨rfl, rfl⟩ := Chain.key_inj hu ht hkey
        exact hreaches
      · exact fun hreaches => ⟨n, t, hfirst, hlast, ht, hreaches, rfl⟩
    rw [placed, hin]
    cases hl : lost n with
    | false => rfl
    | true =>
      have hcalls := (hlost n hfirst hlast hl t ht).1
      cases hc : t.calls f.target with
      | false => rfl
      | true => simp [hcalls hc]

/-- **A batch with its trace.** Whichever blocks are lost, the results hold every transaction that
touches the target. -/
theorem fetchBatch_recovers {first last : Int} (h0 : 0 ≤ first)
    (hserved : chain.Served o f.client lost first last)
    (htraces : ∃ traces, f.client.Gets o "trace_filter" (filterParams f.target first last) (.arr traces) ∧
      Traces chain f.target first last traces)
    (hlost : ∀ n, first ≤ n → n ≤ last → lost n = true → ∀ t ∈ chain.block n,
      (t.calls f.target = true → t.reaches f.target = true) ∧ LooksUp o f.client t) :
    Act.Ends o (f.fetchBatch .traceFilter first last)
      (Matching chain (fun _ t => t.calls f.target || t.reaches f.target) lost (blocksBetween first last))
      Q := by
  have hfinds : ∀ n, Strategy.traceFilter.Finds o f.client f.target n (chain.block n) fun _ => false :=
    fun n => Act.Ends.ensures (.pure fun t _ _ => by simp)
  have hread : Act.Ends o (f.fetchBlocks .traceFilter (blocksBetween first last))
      (Matching chain (placed f.target lost []) lost (blocksBetween first last)) Q :=
    fetchBlocks_matches h0 hserved (fun n _ _ => hfinds n) fun n t _ => by simp [placed]
  unfold fetchBatch
  refine .bind hread fun results hresults => ?_
  rw [if_pos (beq_self_eq_true _)]
  exact mergeTrace_matches hresults htraces hlost

end Fetcher
end AssertionReplay
