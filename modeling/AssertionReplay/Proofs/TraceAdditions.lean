/-
What a trace leaves as it is.

A trace adds records to the results of blocks in two places, to that of its own
block and, where it is one of a range, to those of a whole batch. In both, a
record is put only under a name that is not there yet, so everything that was
there stays (`addInner_keeps`, `mergeTrace_keeps`), whatever the trace names
and whatever the endpoint answers. So a fetch has what its blocks have
(`fetch_of_blocks`).
-/
import AssertionReplay.Proofs.Block
import AssertionReplay.Proofs.Range

namespace AssertionReplay

namespace OrderedMap

/-- What stands under a name in the one map stands under it in the other. -/
def Within (m m' : OrderedMap α) : Prop := ∀ name v, m.get? name = some v → m'.get? name = some v

theorem Within.refl (m : OrderedMap α) : Within m m := fun _ _ h => h

theorem Within.trans {m m' m'' : OrderedMap α} (h : Within m m') (h' : Within m' m'') : Within m m'' :=
  fun name v hv => h' name v (h name v hv)

theorem within_insert {m : OrderedMap α} {name : Text} (h : m.contains name = false) (v : α) :
    Within m (m.insert name v) := by
  intro other w hw
  have hne : other ≠ name := by
    intro heq
    subst heq
    rw [contains, show m.lookup other = some w from hw] at h
    cases h
  rwa [get?, lookup_insert_other m hne]

end OrderedMap

/-- The second result has all that the first one has, and maybe more records. -/
structure BlockResult.Extends (b b' : BlockResult) : Prop where
  block : b'.block = b.block
  ok : b'.ok = b.ok
  transactions : b'.transactions = b.transactions
  matched : b.matched.Within b'.matched

theorem BlockResult.Extends.refl (b : BlockResult) : b.Extends b := ⟨rfl, rfl, rfl, .refl _⟩

theorem BlockResult.Extends.trans {b b' b'' : BlockResult} (h : b.Extends b') (h' : b'.Extends b'') :
    b.Extends b'' where
  block := h'.block.trans h.block
  ok := h'.ok.trans h.ok
  transactions := h'.transactions.trans h.transactions
  matched := h.matched.trans h'.matched

namespace Fetcher

open Act

variable {o : Outside} {f : Fetcher} {s : Strategy} {Q : Fault → Journal → Prop} {results : List BlockResult}

/-- **The trace of a block** takes no record away. -/
theorem addInner_keeps (n : Int) (found : OrderedMap Record) (inner : List (Text × Json)) :
    Act.Ends o (addInner n found inner) found.Within Q :=
  addInner_invariant (fun _ _ _ hnew r _ hm => hm.trans (OrderedMap.within_insert hnew r)) (.refl found)

/-! ## The trace of a batch -/

/-- Each result is extended, and none is added or dropped. -/
abbrev AllExtend (results results' : List BlockResult) : Prop :=
  List.Forall₂ BlockResult.Extends results results'

theorem AllExtend.refl (results : List BlockResult) : AllExtend results results :=
  List.forall₂_same.mpr fun b _ => .refl b

theorem resolve_ends_any (hash : Text) : Act.Ends o (f.resolve hash) (fun _ => True) Q := by
  unfold resolve
  refine .bind .attempt_any fun outcome _ => ?_
  cases outcome with
  | error e => exact .after_logFault (.pure trivial)
  | ok found => exact .pure trivial

theorem putRecord_keeps {hash : Text} (hnew : ∀ b ∈ results, b.matched.contains hash = false) (n : Int)
    (r : Record) : AllExtend results (putRecord results n hash r) := by
  rw [putRecord, AllExtend, List.forall₂_map_right_iff, List.forall₂_same]
  intro b hb
  split
  · exact ⟨rfl, rfl, rfl, OrderedMap.within_insert (hnew b hb) r⟩
  · exact .refl b

theorem placeHash_keeps (results : List BlockResult) (hash : Text) :
    Act.Ends o (f.placeHash results hash) (AllExtend results) Q := by
  unfold placeHash
  split
  · exact .pure (.refl results)
  · rename_i hany
    have hnew : ∀ b ∈ results, b.matched.contains hash = false := by simpa using hany
    split
    · split
      · exact .pure (putRecord_keeps hnew _ _)
      · exact .after_logFault (.pure (.refl results))
    · refine .bind (resolve_ends_any hash) fun found _ => ?_
      cases found with
      | some r => exact .pure (putRecord_keeps hnew _ _)
      | none => exact .pure (.refl results)

theorem placeHashes_keeps (results : List BlockResult) (hashes : List Text) :
    Act.Ends o (f.placeHashes results hashes) (AllExtend results) Q := by
  induction hashes generalizing results with
  | nil => exact .pure (.refl results)
  | cons hash rest ih =>
    refine .bind (placeHash_keeps results hash) fun results' h => (ih results').imp fun _ h' => ?_
    exact forall₂_trans (fun _ _ _ => .trans) h h'

/-- **The trace of a batch** takes nothing away, and never fails the fetch. -/
theorem mergeTrace_keeps (results : List BlockResult) (first last : Int) :
    Act.Ends o (f.mergeTrace s results first last) (AllExtend results) Q := by
  unfold mergeTrace
  refine .bind .attempt_any fun outcome _ => ?_
  cases outcome with
  | error e => exact .after_logFault (.pure (.refl results))
  | ok hashes => exact placeHashes_keeps _ _

/-! ## From the blocks to the fetch -/

/-- What the fetch of a block gives to its result, the result has after the batch. Only where ranges are
traced, records are added to it. -/
theorem fetchBatch_keeps {R : Int → BlockResult → Prop}
    (hkeep : s = .traceFilter → ∀ n b b', R n b → b.Extends b' → R n b') {first last : Int}
    (h : ∀ n ∈ blocksBetween first last, Act.Ends o (f.fetchBlock s n) (R n) Q) :
    Act.Ends o (f.fetchBatch s first last) (List.Forall₂ R (blocksBetween first last)) Q := by
  unfold fetchBatch
  refine .bind (fetchBlocks_ends h) fun results hresults => ?_
  split
  · rename_i hs
    refine (mergeTrace_keeps results first last).imp fun _ hextends => ?_
    exact forall₂_trans (hkeep (beq_iff_eq.mp hs)) hresults hextends
  · exact .pure hresults

/-- **What each block gives, the fetch gives.** It fails only where its bar cannot be drawn. -/
theorem fetch_of_blocks {cap : Capability} (hc : f.chosen? = some cap) {size : Int} (hf : f.Sized size)
    {a b : Int} (h0 : 0 ≤ a) (hab : a ≤ b) {R : Int → BlockResult → Prop}
    (hkeep : Strategy.of cap f.receiptFallback = .traceFilter → ∀ n b b', R n b → b.Extends b' → R n b')
    (hblock : ∀ n, a ≤ n → n ≤ b →
      Act.Ends o (f.fetchBlock (.of cap f.receiptFallback) n) (R n) fun _ _ => False) :
    f.Returns o a b (Fetched.Covers R a b) := by
  refine returns_of_ends (fetch_ends hc hf h0 hab (fun _ _ h => h) ?_)
  intro first last hfirst _ hlast
  refine fetchBatch_keeps hkeep fun n hn => ?_
  obtain ⟨hn, hn'⟩ := mem_blocksBetween.mp hn
  exact (hblock n (by omega) (by omega)).mono (fun _ h => h) fun _ _ h => h.elim

end Fetcher
end AssertionReplay
