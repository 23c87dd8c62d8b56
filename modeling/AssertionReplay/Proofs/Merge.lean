/-
From the results of the blocks to the records of the range.

If each block's result holds the records of its touching transactions, in
whatever order they were found, then the records of the fetch are those of the
chain, in chain order (`mergedRecords_eq`): no hash stands in two blocks, so
none is dropped, and no two records stand at the same place, so there is one
way to sort them.
-/
import AssertionReplay.Proofs.Chain
import AssertionReplay.Proofs.Range
import Mathlib.Data.List.Induction
import Mathlib.Data.List.Nodup
import Mathlib.Data.List.Pairwise
import Mathlib.Data.List.Perm.Basic

namespace AssertionReplay

open Text

namespace OrderedMap

theorem contains_iff {m : OrderedMap α} {name : Text} : m.contains name = true ↔ name ∈ m.map (·.1) := by
  induction m with
  | nil => simp [contains]
  | cons p rest ih =>
    obtain ⟨n, v⟩ := p
    rw [contains] at ih ⊢
    by_cases h : name = n
    · simp [h]
    · simp [List.lookup_cons, show (name == n) = false by simpa using h, ih, h]

theorem contains_insert {m : OrderedMap α} {name other : Text} {v : α} :
    (m.insert other v).contains name = true ↔ m.contains name = true ∨ name = other := by
  rw [contains_iff, contains_iff]
  show name ∈ names (m.insert other v) ↔ name ∈ names m ∨ name = other
  rw [names_insert]
  split
  · rename_i hother
    refine ⟨.inl, fun h => h.elim id fun heq => ?_⟩
    rwa [heq]
  · rw [List.mem_append, List.mem_singleton]

/-! ## First entries -/

/-- The entries of which no earlier one has the name. -/
def firsts (m : OrderedMap α) : OrderedMap α :=
  m.foldl (fun found p => if contains found p.1 then found else found ++ [p]) []

theorem firsts_concat (m : OrderedMap α) (p : Text × α) :
    firsts (m ++ [p]) = if (firsts m).contains p.1 then firsts m else firsts m ++ [p] := by
  rw [firsts, List.foldl_append]
  rfl

theorem lookup_concat (m : OrderedMap α) (p : Text × α) (name : Text) :
    List.lookup name (m ++ [p]) = (List.lookup name m).or (if name = p.1 then some p.2 else none) := by
  obtain ⟨n, v⟩ := p
  rw [List.lookup_append]
  by_cases h : name = n
  · simp [h]
  · simp [List.lookup_cons, h, show (name == n) = false by simpa using h]

/-- **The first entries** are those that are found. -/
theorem lookup_firsts (m : OrderedMap α) (name : Text) : (firsts m).lookup name = m.lookup name := by
  induction m using List.reverseRecOn with
  | nil => rfl
  | append_singleton m p ih =>
    rw [firsts_concat, lookup_concat]
    split
    · rename_i hin
      rw [ih]
      by_cases hname : name = p.1
      · rw [contains, ← hname, ih, Option.isSome_iff_exists] at hin
        obtain ⟨v, hv⟩ := hin
        rw [hv, Option.some_or]
      · rw [if_neg hname, Option.or_none]
    · rw [lookup_concat, ih]

theorem contains_firsts (m : OrderedMap α) (name : Text) : (firsts m).contains name = m.contains name := by
  rw [contains, contains, lookup_firsts]

theorem firsts_concat_of_mem {m : OrderedMap α} {p : Text × α} (h : p.1 ∈ names m) :
    firsts (m ++ [p]) = firsts m := by
  rw [firsts_concat, if_pos]
  rwa [contains_firsts, contains_iff]

theorem firsts_concat_of_new {m : OrderedMap α} {p : Text × α} (h : p.1 ∉ names m) :
    firsts (m ++ [p]) = firsts m ++ [p] := by
  rw [firsts_concat, if_neg]
  rwa [contains_firsts, contains_iff]

theorem names_concat (m : OrderedMap α) (p : Text × α) : names (m ++ [p]) = names m ++ [p.1] := List.map_append

theorem names_firsts (m : OrderedMap α) : names (firsts m) = (names m).eraseDups := by
  induction m using List.reverseRecOn with
  | nil => rfl
  | append_singleton m p ih =>
    rw [names_concat, List.eraseDups_append]
    by_cases hmem : p.1 ∈ names m
    · simp [firsts_concat_of_mem hmem, ih, List.removeAll, hmem]
    · simp [firsts_concat_of_new hmem, names_concat, ih, List.removeAll, hmem, List.eraseDups_cons]

theorem nodup_firsts (m : OrderedMap α) : (names (firsts m)).Nodup := by
  induction m using List.reverseRecOn with
  | nil => exact List.nodup_nil
  | append_singleton m p ih =>
    by_cases hmem : p.1 ∈ names m
    · rwa [firsts_concat_of_mem hmem]
    · have hnew : p.1 ∉ names (firsts m) := by rwa [names_firsts, List.mem_eraseDups]
      rw [firsts_concat_of_new hmem, names_concat, ← List.concat_eq_append]
      exact ih.concat hnew

theorem firsts_of_nodup {m : OrderedMap α} (h : (names m).Nodup) : firsts m = m := by
  induction m using List.reverseRecOn with
  | nil => rfl
  | append_singleton m p ih =>
    rw [names_concat, List.nodup_append] at h
    have hnew : p.1 ∉ names m := fun hmem => h.2.2 _ hmem _ (List.mem_singleton_self _) rfl
    rw [firsts_concat_of_new hnew, ih h.1]

theorem mem_of_mem_firsts {m : OrderedMap α} {p : Text × α} (h : p ∈ firsts m) : p ∈ m := by
  induction m using List.reverseRecOn with
  | nil => exact h
  | append_singleton m q ih =>
    rw [firsts_concat] at h
    rw [List.mem_append]
    split at h
    · exact .inl (ih h)
    · exact (List.mem_append.mp h).imp_left ih

end OrderedMap

/-- The records of two places, the first one before the second. -/
def Record.Before (a b : Record) : Prop :=
  a.block.toInt < b.block.toInt ∨ a.block.toInt = b.block.toInt ∧ a.index.toInt < b.index.toInt

theorem Record.Before.atOrBefore {a b : Record} (h : a.Before b) : a.atOrBefore b = true := by
  unfold Record.Before at h
  simp only [Record.atOrBefore, Bool.or_eq_true, decide_eq_true_eq, Bool.and_eq_true, beq_iff_eq]
  omega

theorem Record.atOrBefore_trans (a b c : Record) (h : a.atOrBefore b = true) (h' : b.atOrBefore c = true) :
    a.atOrBefore c = true := by
  simp only [Record.atOrBefore, Bool.or_eq_true, decide_eq_true_eq, Bool.and_eq_true, beq_iff_eq] at *
  omega

theorem Record.atOrBefore_total (a b : Record) : (a.atOrBefore b || b.atOrBefore a) = true := by
  simp only [Record.atOrBefore, Bool.or_eq_true, decide_eq_true_eq, Bool.and_eq_true, beq_iff_eq]
  omega

/-- Sorting a rearrangement of records in strict chain order puts them back. -/
theorem Record.inChainOrder_of_perm {rs ordered : List Record} (hp : rs.Perm ordered)
    (ho : ordered.Pairwise Record.Before) : Record.inChainOrder rs = ordered := by
  have hsorted : ordered.Pairwise fun a b => a.atOrBefore b = true := ho.imp Record.Before.atOrBefore
  have hperm : (Record.inChainOrder rs).Perm ordered := (List.mergeSort_perm _ _).trans hp
  -- Records at the same place are the same, since `ordered` has one at a place.
  have hplace : ∀ a ∈ ordered, ∀ b ∈ ordered, a.atOrBefore b = true → b.atOrBefore a = true → a = b := by
    intro a ha b hb hab hba
    by_contra hne
    have hsymm : Std.Symm fun a b : Record => a.Before b ∨ b.Before a := ⟨fun _ _ h => h.symm⟩
    have hbefore := (ho.imp Or.inl : ordered.Pairwise fun a b => a.Before b ∨ b.Before a).forall ha hb hne
    simp only [Record.atOrBefore, Bool.or_eq_true, decide_eq_true_eq, Bool.and_eq_true, beq_iff_eq] at hab hba
    unfold Record.Before at hbefore
    omega
  refine hperm.eq_of_pairwise ?_ (List.pairwise_mergeSort atOrBefore_trans atOrBefore_total _) hsorted
  exact fun a b ha hb => hplace a (hperm.mem_iff.mp ha) b hb

namespace Fetcher

theorem firstOccurrences_eq_firsts (blocks : List BlockResult) :
    firstOccurrences blocks = (OrderedMap.firsts (blocks.flatMap (·.matched))).map (·.2) := rfl

theorem firstOccurrences_eq {blocks : List BlockResult}
    (h : ((blocks.flatMap (·.matched)).map (·.1)).Nodup) :
    firstOccurrences blocks = (blocks.flatMap (·.matched)).map (·.2) := by
  rw [firstOccurrences_eq_firsts, OrderedMap.firsts_of_nodup h]

/-- What the records of all results are taken from: entries of the results, no two of one name. -/
theorem exists_firstOccurrences (blocks : List BlockResult) : ∃ m : OrderedMap Record,
    firstOccurrences blocks = m.map (·.2) ∧ (m.map (·.1)).Nodup ∧ ∀ p ∈ m, ∃ b ∈ blocks, p ∈ b.matched :=
  ⟨_, firstOccurrences_eq_firsts blocks, OrderedMap.nodup_firsts _,
    fun _ hp => List.mem_flatMap.mp (OrderedMap.mem_of_mem_firsts hp)⟩

theorem mem_mergedRecords {blocks : List BlockResult} {r : Record} (h : r ∈ mergedRecords blocks) :
    ∃ b ∈ blocks, ∃ p ∈ b.matched, p.2 = r := by
  obtain ⟨m, hm, -, hmem⟩ := exists_firstOccurrences blocks
  rw [mergedRecords, Record.inChainOrder, List.mem_mergeSort, hm] at h
  obtain ⟨p, hp, rfl⟩ := List.mem_map.mp h
  obtain ⟨b, hb, hp⟩ := hmem p hp
  exact ⟨b, hb, p, hp, rfl⟩

end Fetcher

/-! ## The records of a chain -/

namespace Chain

variable {chain : Chain} {touching : Int → Mined → Bool} {lost : Int → Bool} {n : Int}

/-- The result of a block holds its transactions and the records of those that touch, and tells whether
the block was lost. -/
structure Matches (chain : Chain) (touching : Int → Mined → Bool) (lost : Int → Bool) (n : Int)
    (r : BlockResult) : Prop where
  block : r.block = n
  ok : r.ok = !lost n
  transactions : r.transactions = if lost n then [] else (chain.block n).map (·.object)
  matched : r.matched.Perm (entries (touching n) (chain.block n))

theorem Matches.congr {touching' : Int → Mined → Bool} {r : BlockResult} (h : chain.Matches touching lost n r)
    (heq : ∀ t ∈ chain.block n, touching n t = touching' n t) : chain.Matches touching' lost n r where
  block := h.block
  ok := h.ok
  transactions := h.transactions
  matched := by
    rw [← entries_congr heq]
    exact h.matched

theorem records_eq (first last : Int) : chain.records touching first last =
    ((Fetcher.blocksBetween first last).flatMap fun n => entries (touching n) (chain.block n)).map (·.2) := by
  simp only [records, Fetcher.blocksBetween_eq, List.flatMap_map, List.map_flatMap, entries, List.map_map]
  rfl

theorem nodup_entries (blocks : List Int) (h : blocks.Nodup) :
    ((blocks.flatMap fun n => entries (touching n) (chain.block n)).map (·.1)).Nodup := by
  rw [List.map_flatMap, List.nodup_flatMap]
  constructor
  · intro n _
    have hsub : ((entries (touching n) (chain.block n)).map (·.1)).Sublist
        ((chain.block n).map Mined.key) := by
      simp only [entries, List.map_map]
      exact List.filter_sublist.map _
    exact hsub.nodup (chain.nodup_keys n)
  · refine h.imp fun {n m} hnm => ?_
    intro key hn hm
    obtain ⟨t, ht, -, rfl⟩ := mem_keys_entries.mp hn
    obtain ⟨u, hu, -, hkey⟩ := mem_keys_entries.mp hm
    exact hnm (key_inj ht hu hkey.symm).1

theorem pairwise_records (first last : Int) :
    (chain.records touching first last).Pairwise Record.Before := by
  have hblock : ∀ {n : Int} {p : Text × Record}, p ∈ entries (touching n) (chain.block n) →
      p.2.block.toInt = n := by
    intro n p hp
    simp only [entries, List.mem_map, List.mem_filter] at hp
    obtain ⟨t, ⟨ht, -⟩, rfl⟩ := hp
    obtain ⟨i, hi⟩ := at_of_mem ht
    simp only [Mined.entry, hi.record_block, Quantity.toInt]
  rw [records_eq, List.pairwise_map, List.pairwise_flatMap]
  constructor
  · intro n _
    have hindex : (entries (touching n) (chain.block n)).Pairwise fun p q =>
        p.2.index.toInt < q.2.index.toInt := by
      rw [entries, List.pairwise_map]
      exact (chain.pairwise_block n).filter _
    refine hindex.imp_of_mem fun hp hq h => .inr ⟨?_, h⟩
    rw [hblock hp, hblock hq]
  · refine (Fetcher.pairwise_blocksBetween first last).imp fun {n m} hnm => ?_
    intro p hp q hq
    exact .inl (by rw [hblock hp, hblock hq]; exact hnm)

theorem flatMap_perm {blocks : List Int} {results : List BlockResult}
    (h : List.Forall₂ (chain.Matches touching lost) blocks results) :
    (results.flatMap (·.matched)).Perm
      (blocks.flatMap fun n => entries (touching n) (chain.block n)) := by
  induction h with
  | nil => exact .refl _
  | cons hr _ ih => exact hr.matched.append ih

/-- **Merging the blocks of a range.** -/
theorem mergedRecords_eq {first last : Int} {results : List BlockResult}
    (h : List.Forall₂ (chain.Matches touching lost) (Fetcher.blocksBetween first last) results) :
    Fetcher.mergedRecords results = chain.records touching first last := by
  have hperm := flatMap_perm h
  have hnodup : (((Fetcher.blocksBetween first last).flatMap fun n =>
      entries (touching n) (chain.block n)).map (·.1)).Nodup :=
    nodup_entries _ (Fetcher.nodup_blocksBetween first last)
  unfold Fetcher.mergedRecords
  rw [Fetcher.firstOccurrences_eq ((hperm.map _).nodup_iff.mpr hnodup)]
  refine Record.inChainOrder_of_perm ?_ (pairwise_records first last)
  rw [records_eq]
  exact hperm.map _

end Chain
end AssertionReplay
