/-
Which of the records of its blocks a fetch returns, and in which order.

The same hash can stand in the results of several blocks. It counts once, where
it comes first, with the record that the first block to have it has
(`Fetcher.MergedFrom`). The records that are kept so are put into chain order,
and those that claim the same place stay as they were (`Record.StablySorts`).
Nothing else is lost or added, whatever was put into the results, and whenever
(`fetched_records_merged`).
-/
import AssertionReplay.Proofs.Provenance

namespace AssertionReplay

open Text

/-! ## Chain order -/

namespace Record

/-- Whether the record claims this place in the chain. -/
def isAt (block index : Int) (r : Record) : Bool := r.block.toInt == block && r.index.toInt == index

/-- The second list has the records of the first one in chain order, and those that claim the same place
in the order that they have there. -/
structure StablySorts (rs sorted : List Record) : Prop where
  perm : sorted.Perm rs
  ordered : sorted.Pairwise fun a b =>
    a.block.toInt < b.block.toInt ∨ a.block.toInt = b.block.toInt ∧ a.index.toInt ≤ b.index.toInt
  stable : ∀ block index, sorted.filter (isAt block index) = rs.filter (isAt block index)

theorem atOrBefore_iff {a b : Record} : a.atOrBefore b = true ↔
    a.block.toInt < b.block.toInt ∨ a.block.toInt = b.block.toInt ∧ a.index.toInt ≤ b.index.toInt := by
  simp [atOrBefore]

theorem atOrBefore_of_isAt {a b : Record} {block index : Int} (ha : a.isAt block index = true)
    (hb : b.isAt block index = true) : a.atOrBefore b = true := by
  simp only [isAt, Bool.and_eq_true, beq_iff_eq] at ha hb
  rw [atOrBefore_iff]
  omega

/-- The records of one place are in order already, so that sorting keeps them as they are. -/
theorem filter_inChainOrder (rs : List Record) (block index : Int) :
    (inChainOrder rs).filter (isAt block index) = rs.filter (isAt block index) := by
  have hplace : (rs.filter (isAt block index)).Pairwise fun a b => a.atOrBefore b = true :=
    List.pairwise_iff_forall_sublist.mpr fun hsub => by
      have hmem := fun x hx => (List.mem_filter.mp (hsub.subset (a := x) hx)).2
      exact atOrBefore_of_isAt (hmem _ (by simp)) (hmem _ (by simp))
  have hkept : (rs.filter (isAt block index)).Sublist (inChainOrder rs) :=
    List.sublist_mergeSort atOrBefore_trans atOrBefore_total hplace List.filter_sublist
  have hsub := hkept.filter (isAt block index)
  simp only [List.filter_filter, Bool.and_self] at hsub
  exact (hsub.eq_of_length ((List.mergeSort_perm rs atOrBefore).symm.filter _).length_eq).symm

/-- **Chain order** is a stable sort. -/
theorem stablySorts_inChainOrder (rs : List Record) : StablySorts rs (inChainOrder rs) where
  perm := List.mergeSort_perm rs atOrBefore
  ordered := (List.pairwise_mergeSort atOrBefore_trans atOrBefore_total rs).imp atOrBefore_iff.mp
  stable := filter_inChainOrder rs

end Record

/-! ## First occurrences -/

theorem OrderedMap.lookup_flatMap (bs : List β) (entries : β → OrderedMap α) (name : Text) :
    List.lookup name (bs.flatMap entries) = bs.findSome? fun b => (entries b).get? name := by
  induction bs with
  | nil => rfl
  | cons b bs ih =>
    rw [List.flatMap_cons, List.lookup_append, ih, List.findSome?_cons, get?]
    cases (entries b).lookup name <;> rfl

namespace Fetcher

/-- The map has each name of the blocks once, in the order in which they come first, block by block and
in each block as they were put there, and under it the record that the first block to have the name has. -/
structure MergedFrom (blocks : List BlockResult) (m : OrderedMap Record) : Prop where
  names : m.names = (blocks.flatMap (·.matched.names)).eraseDups
  nodup : m.names.Nodup
  record : ∀ name, m.get? name = blocks.findSome? (·.matched.get? name)

theorem mergedFrom_firsts (blocks : List BlockResult) :
    MergedFrom blocks (OrderedMap.firsts (blocks.flatMap (·.matched))) where
  names := by
    rw [OrderedMap.names_firsts, OrderedMap.names, List.map_flatMap]
    rfl
  nodup := OrderedMap.nodup_firsts _
  record name := (OrderedMap.lookup_firsts _ name).trans (OrderedMap.lookup_flatMap _ _ name)

theorem MergedFrom.mem_names {blocks : List BlockResult} {m : OrderedMap Record} (h : MergedFrom blocks m)
    (name : Text) : name ∈ m.names ↔ ∃ b ∈ blocks, name ∈ b.matched.names := by
  rw [h.names, List.mem_eraseDups, List.mem_flatMap]

/-- **The records of a fetch** are those of its blocks, whatever the endpoint answers: every name that a
block has counts once, where it comes first, with the record of the first block that has it, no other
record is there, and they are sorted stably into chain order. -/
theorem fetched_records_merged (f : Fetcher) (o : Outside) (first last : Json) :
    Act.Yields o (f.fetch first last) fun r => ∃ m : OrderedMap Record,
      MergedFrom r.blocks m ∧ (∀ name, name ∈ m.names ↔ ∃ b ∈ r.blocks, name ∈ b.matched.names) ∧
      Record.StablySorts (m.map (·.2)) r.records := by
  have hgathers : Act.Yields o (f.fetch first last) (Gathers fun _ _ => True) :=
    fetch_yields f o first last fun _ _ _ => .imp .any fun _ _ _ _ => trivial
  refine hgathers.imp fun r h => ?_
  obtain ⟨hrecords, -⟩ := h
  have hmerged := mergedFrom_firsts r.blocks
  refine ⟨_, hmerged, hmerged.mem_names, ?_⟩
  rw [hrecords, mergedRecords, firstOccurrences_eq_firsts]
  exact Record.stablySorts_inChainOrder _

end Fetcher
end AssertionReplay
