/-
What the result of a block holds.

The records of a block are collected by hash in two steps, the direct calls
first and then what a strategy finds. Since no two transactions of a block
share a hash, no step overwrites another's record, and together they hold each
touching transaction once (`fetchBlock_matches`).
-/
import AssertionReplay.Proofs.Detection
import AssertionReplay.Proofs.Merge

namespace AssertionReplay

open Text

namespace Fetcher

variable {o : Outside} {f : Fetcher} {s : Strategy} {n : Int} {ts : List Mined} {Q : Fault → Journal → Prop}

theorem new_of_nodup {names : List Text} {t : Mined} (h : (names ++ (t :: ts).map Mined.key).Nodup) :
    t.key ∉ names := by
  intro hmem
  exact (List.nodup_append.mp h).2.2 _ hmem _ (by simp) rfl

theorem directCalls_eq {target : String} {found : OrderedMap Record} (hat : ∀ t ∈ ts, ∃ i, t.At n i)
    (hkeys : (found.map (·.1) ++ ts.map Mined.key).Nodup) :
    directCalls target n found (ts.map (·.object)) = .ok (found ++ entries (Mined.calls target) ts) := by
  induction ts generalizing found with
  | nil => simp [directCalls, entries]
  | cons t ts ih =>
    obtain ⟨i, hi⟩ := hat t (by simp)
    have hat := fun u hu => hat u (List.mem_cons_of_mem t hu)
    rw [List.map_cons, directCalls, show Field.member t.object "to" = .ok t.recipient from hi.member "to"]
    simp only [bind, Except.bind, hi.same_recipient, hi.record]
    cases hcalls : t.calls target with
    | true =>
      rw [if_pos rfl, hi.record_hash, OrderedMap.insert_new (new_of_nodup hkeys),
        ih hat (by simpa using hkeys)]
      simp [entries, hcalls, Mined.entry]
    | false =>
      rw [if_neg (by simp), ih hat (hkeys.sublist (by simp))]
      simp [entries, hcalls]

theorem withHashIn_step {hashes : List Text} {found : OrderedMap Json} {t : Mined} {i : Nat} (h : t.At n i)
    (hnew : t.key ∉ found.map (·.1)) :
    (match t.object.member? "hash" with
      | some (.str hash) =>
        if hashes.contains (lower hash) then found.insert (lower hash) t.object else found
      | _ => found) = if hashes.contains t.key then found ++ [(t.key, t.object)] else found := by
  rw [h.hash]
  simp only [← OrderedMap.insert_new hnew t.object]
  rfl

theorem withHashIn_eq {hashes : List Text} (hat : ∀ t ∈ ts, ∃ i, t.At n i)
    (hkeys : (ts.map Mined.key).Nodup) : withHashIn hashes (ts.map (·.object)) =
      (ts.filter fun t => hashes.contains t.key).map fun t => (t.key, t.object) := by
  have hfold : ∀ found : OrderedMap Json, (found.map (·.1) ++ ts.map Mined.key).Nodup →
      (ts.map (·.object)).foldl (fun found transaction =>
        match transaction.member? "hash" with
        | some (.str hash) =>
          if hashes.contains (lower hash) then OrderedMap.insert found (lower hash) transaction else found
        | _ => found) found =
      found ++ (ts.filter fun t => hashes.contains t.key).map fun t => (t.key, t.object) := by
    clear hkeys
    induction ts with
    | nil => simp
    | cons t ts ih =>
      intro found hkeys
      obtain ⟨i, hi⟩ := hat t (by simp)
      have ih := ih fun u hu => hat u (List.mem_cons_of_mem t hu)
      rw [List.map_cons, List.foldl_cons, withHashIn_step hi (new_of_nodup hkeys)]
      by_cases hin : hashes.contains t.key = true
      · rw [if_pos hin, ih _ (by simpa using hkeys), List.filter_cons, if_pos hin]
        simp
      · rw [if_neg hin, ih _ (hkeys.sublist (by simp)), List.filter_cons, if_neg hin]
  exact hfold [] (by simpa using hkeys)

theorem addInner_ends {found : OrderedMap Record} (hat : ∀ t ∈ ts, ∃ i, t.At n i)
    (hkeys : (ts.map Mined.key).Nodup) : Act.Ends o (addInner n found (ts.map fun t => (t.key, t.object)))
      (· = found ++ entries (fun t => !found.contains t.key) ts) Q := by
  induction ts generalizing found with
  | nil => exact .pure (by simp [entries])
  | cons t ts ih =>
    obtain ⟨i, hi⟩ := hat t (by simp)
    rw [List.map_cons, List.nodup_cons] at hkeys
    have ih : ∀ found : OrderedMap Record, Act.Ends o (addInner n found (ts.map fun t => (t.key, t.object)))
        (· = found ++ entries (fun t => !found.contains t.key) ts) Q :=
      fun _ => ih (fun u hu => hat u (List.mem_cons_of_mem t hu)) hkeys.2
    rw [List.map_cons, addInner]
    cases hin : found.contains t.key with
    | true =>
      rw [if_pos rfl]
      refine (ih found).imp fun matched hm => ?_
      rw [hm]
      simp [entries, hin]
    | false =>
      have hnew : t.key ∉ found.map (·.1) := by
        rw [← OrderedMap.contains_iff, hin]
        simp
      rw [if_neg (by simp), hi.record]
      dsimp only
      rw [OrderedMap.insert_new hnew]
      refine (ih _).imp fun matched hm => ?_
      -- The hash just added is that of no other transaction of the block.
      have hrest : entries (fun u => !OrderedMap.contains (found ++ [(t.key, t.record)]) u.key) ts =
          entries (fun u => !found.contains u.key) ts := by
        refine congrArg (List.map Mined.entry) (List.filter_congr fun u hu => ?_)
        have hne : u.key ≠ t.key := fun h => hkeys.1 (h ▸ List.mem_map_of_mem hu)
        congr 1
        rw [Bool.eq_iff_iff, OrderedMap.contains_iff, OrderedMap.contains_iff]
        simp [hne]
      rw [hm, hrest]
      simp [entries, hin, Mined.entry]

/-! ## A block of a chain -/

theorem contains_entries {p : Mined → Bool} {t : Mined} (hkey : ∀ u ∈ ts, u.key = t.key → u = t)
    (ht : t ∈ ts) : (entries p ts).contains t.key = p t := by
  rw [Bool.eq_iff_iff, OrderedMap.contains_iff, mem_keys_entries]
  constructor
  · intro h
    obtain ⟨u, hu, hp, hk⟩ := h
    rwa [← hkey u hu hk]
  · exact fun hp => ⟨t, ht, hp, rfl⟩

theorem entries_append_perm (p q : Mined → Bool) (ts : List Mined) :
    (entries p ts ++ entries (fun t => !p t && q t) ts).Perm (entries (fun t => p t || q t) ts) := by
  have hp : ts.filter p = (ts.filter fun t => p t || q t).filter p := by
    rw [List.filter_filter]
    exact List.filter_congr fun t _ => by cases p t <;> simp
  have hq : ts.filter (fun t => !p t && q t) = (ts.filter fun t => p t || q t).filter fun t => !p t := by
    rw [List.filter_filter]
    exact List.filter_congr fun t _ => by cases p t <;> simp
  simp only [entries]
  rw [hp, hq, ← List.map_append]
  exact (List.filter_append_perm _ _).map _

/-- The direct calls, and those with a hash that was found which are no direct calls. -/
theorem entries_found_perm {address : Text} {inner : Mined → Bool} {hashes : List Text}
    (hkey : ∀ u ∈ ts, ∀ t ∈ ts, u.key = t.key → u = t)
    (hhashes : ∀ t ∈ ts, t.calls address = false → (t.key ∈ hashes ↔ inner t = true)) :
    (entries (Mined.calls address) ts ++
        entries (fun t => !(entries (Mined.calls address) ts).contains t.key)
          (ts.filter fun t => hashes.contains t.key)).Perm
      (entries (fun t => t.calls address || inner t) ts) := by
  have hfound : entries (fun t => !(entries (Mined.calls address) ts).contains t.key)
      (ts.filter fun t => hashes.contains t.key) = entries (fun t => !t.calls address && inner t) ts := by
    rw [entries, List.filter_filter]
    refine congrArg (List.map Mined.entry) (List.filter_congr fun t ht => ?_)
    rw [contains_entries (fun u hu hk => hkey u hu t ht hk) ht]
    cases hcalls : t.calls address with
    | true => rfl
    | false =>
      rw [Bool.eq_iff_iff]
      simp only [Bool.not_false, Bool.true_and, List.contains_iff_mem]
      exact hhashes t ht hcalls
  rw [hfound]
  exact entries_append_perm _ _ _

theorem innerCalls_ends {inner : Mined → Bool} (hat : ∀ t ∈ ts, ∃ i, t.At n i)
    (hkeys : (ts.map Mined.key).Nodup) (hfinds : s.Finds o f.client f.target n ts inner) :
    Act.Ends o (f.innerCalls s n (ts.map (·.object))) (fun found => ∃ hashes : List Text,
      (∀ t ∈ ts, t.calls f.target = false → (t.key ∈ hashes ↔ inner t = true)) ∧
      found = (ts.filter fun t => hashes.contains t.key).map fun t => (t.key, t.object)) Q := by
  unfold innerCalls
  refine .bind (.attempt (R := fun r => ∃ hashes, r = .ok hashes ∧
    ∀ t ∈ ts, t.calls f.target = false → (t.key ∈ hashes ↔ inner t = true)) ?_) ?_
  · exact hfinds.ends.imp fun hashes h => ⟨hashes, rfl, h⟩
  · intro _ houtcome
    obtain ⟨hashes, rfl, h⟩ := houtcome
    exact .pure ⟨hashes, h, withHashIn_eq hat hkeys⟩

variable {chain : Chain} {touching : Int → Mined → Bool} {lost : Int → Bool} {inner : Mined → Bool}

/-- **A block that is read.** -/
theorem matchContent_matches (hlost : lost n = false)
    (hfinds : s.Finds o f.client f.target n (chain.block n) inner)
    (htouch : ∀ t ∈ chain.block n, touching n t = (t.calls f.target || inner t)) :
    Act.Ends o (f.matchContent s n
        ⟨n, (chain.block n).map (·.object), entries (Mined.calls f.target) (chain.block n)⟩)
      (chain.Matches touching lost n) Q := by
  have hat : ∀ t ∈ chain.block n, ∃ i, t.At n i := fun t => Chain.at_of_mem
  have hkeys := chain.nodup_keys n
  unfold matchContent
  refine .bind (innerCalls_ends hat hkeys hfinds) ?_
  intro _ houtcome
  obtain ⟨hashes, hhashes, rfl⟩ := houtcome
  refine .bind (addInner_ends (fun t ht => hat t (List.mem_of_mem_filter ht))
    (hkeys.sublist (List.filter_sublist.map _))) ?_
  intro matched heq
  subst heq
  have htouching : entries (touching n) (chain.block n) =
      entries (fun t => t.calls f.target || inner t) (chain.block n) :=
    congrArg (List.map Mined.entry) (List.filter_congr htouch)
  have hresult : chain.Matches touching lost n
      { block := n, ok := true, transactions := (chain.block n).map (·.object), matched := _ } :=
    ⟨rfl, by rw [hlost]; rfl, by rw [hlost]; rfl,
      htouching ▸ entries_found_perm (fun u hu t ht hk => (Chain.key_inj hu ht hk).2) hhashes⟩
  split
  · exact .after_logWritten (.pure hresult)
  · exact .pure hresult

theorem fetchBlock_gives (h0 : 0 ≤ n) (hlost : lost n = false)
    (hgives : chain.Gives o f.client n) (hfinds : s.Finds o f.client f.target n (chain.block n) inner)
    (htouch : ∀ t ∈ chain.block n, touching n t = (t.calls f.target || inner t)) :
    Act.Ends o (f.fetchBlock s n) (chain.Matches touching lost n) Q := by
  obtain ⟨v, hgets, hnumber, hitems⟩ := hgives
  have hat : ∀ t ∈ chain.block n, ∃ i, t.At n i := fun t => Chain.at_of_mem
  have hgiven : v.isGiven = true := by
    cases v with
    | obj members => cases members with
      | nil => cases hnumber
      | cons => rfl
    | _ => cases hnumber
  have hobj : ∀ v ∈ (chain.block n).map (·.object), isObject v = true := by
    intro v hv
    obtain ⟨t, ht, rfl⟩ := List.mem_map.mp hv
    obtain ⟨i, hi⟩ := hat t ht
    exact hi.isObject
  have hdirect : directCalls f.target n [] ((chain.block n).map (·.object)) = .ok _ :=
    directCalls_eq hat (by simpa using chain.nodup_keys n)
  have hread : readBlock f.target n v = .ok _ := readBlock_ok h0 hnumber hitems hobj hdirect
  refine .of_cases fun past => ?_
  obtain ⟨_, hc, rfl⟩ := contentOf_ensures hgiven hgets hread past
  rw [fetchBlock_of_content s (Prod.ext hc rfl)]
  exact (matchContent_matches hlost hfinds htouch).cases _

theorem fetchBlock_misses (hlost : lost n = true)
    (hmisses : f.client.Misses o "eth_getBlockByNumber" (blockParams n))
    (htouch : ∀ t ∈ chain.block n, touching n t = false) :
    Act.Ends o (f.fetchBlock s n) (chain.Matches touching lost n) Q := by
  have hnone : entries (touching n) (chain.block n) = [] := by
    simp only [entries, List.map_eq_nil_iff, List.filter_eq_nil_iff, Bool.not_eq_true]
    exact htouch
  refine .of_cases fun past => .inl ?_
  exact ⟨_, _, Prod.ext (fetchBlock_of_misses hmisses past) rfl, rfl, by rw [hlost]; rfl, by rw [hlost]; rfl,
    by rw [hnone]; exact .refl _⟩

end Fetcher
end AssertionReplay
