/-
Which block a record is placed in.

The record of a transaction has the number of its block from one of three
places: the number that the block gives for itself, where the block or a trace
of the block has it; the number that was asked for, where a trace of the batch
names a fetched transaction; or the transaction, where it is looked up. Only
on the first of these ways can it differ from the number of the result that it
stands in, and it does wherever a block is answered as another one
(`Fetcher.ReadAs`). If no block of a range is, every record that a fetch
returns is one of the range (`fetched_records_placed`).
-/
import AssertionReplay.Proofs.DirectCalls
import AssertionReplay.Proofs.Provenance
import AssertionReplay.Proofs.Survival

namespace AssertionReplay

open Text

theorem OrderedMap.mem_of_get? {m : OrderedMap α} {name : Text} {v : α} (h : m.get? name = some v) :
    (name, v) ∈ m := by
  obtain ⟨before, after, hm, -⟩ := List.lookup_eq_some_iff.mp h
  rw [hm]
  simp

namespace Record

theorem block_of_ofTransaction {v : Json} {q : Quantity} {r : Record} (h : ofTransaction v (some q) = .ok r) :
    r.block = q := by
  obtain ⟨members, rfl⟩ := ofTransaction_obj h
  exact (Except.ok.inj (ofTransaction_eq_ok_iff.mp h).block).symm

theorem FromObject.block_int {r : Record} (h : r.FromObject) : r.block = .int r.block.toInt := by
  obtain ⟨members, block?, hread⟩ := h.readFrom
  have hblock := hread.block
  cases block? with
  | some n =>
    rw [← Except.ok.inj hblock]
    rfl
  | none =>
    unfold blockNumber at hblock
    rcases hn : Field.hexInt (Json.memberOrNull members "blockNumber") with e | n
    · rw [hn] at hblock
      cases hblock
    · rw [hn] at hblock
      rw [← Except.ok.inj hblock]
      rfl

end Record

namespace Fetcher

open Act

variable {o : Outside} {f : Fetcher} {s : Strategy} {n m : Int}

/-! ## The number of a block -/

/-- The number that a block goes by: its own one, if it gives one, and else the one it was asked for
under. -/
def claimedNumber (asked : Int) (v : Json) : Except Fault Int := do
  let number ← Field.member v "number"
  if number.isGiven then Field.hexInt number else .ok asked

/-- The endpoint answered the request for a block with one that goes by the second number. -/
def ReadAs (f : Fetcher) (o : Outside) (n m : Int) : Prop :=
  ∃ past v j, f.client.blockByNumber (.int n) (.bool true) o past = (.ok v, j) ∧ v.isGiven = true ∧
    claimedNumber n v = .ok m

theorem claimedNumber_of_readBlock {target : String} {v : Json} {c : Content}
    (h : readBlock target n v = .ok c) : claimedNumber n v = .ok c.block := by
  obtain ⟨number, hnumber, h⟩ := bind_eq_ok_iff.mp h
  refine bind_eq_ok_iff.mpr ⟨number, hnumber, ?_⟩
  dsimp only at h
  split at h
  all_goals
    rename_i hgiven
    obtain ⟨k, hk, h⟩ := bind_eq_ok_iff.mp h
    obtain ⟨_, -, h⟩ := bind_eq_ok_iff.mp h
    obtain ⟨_, -, h⟩ := bind_eq_ok_iff.mp h
    obtain ⟨_, -, h⟩ := bind_eq_ok_iff.mp h
    cases h
    simpa [hgiven] using hk

theorem readAs_of_contentOf {past j : Journal} {c : Content} (h : f.contentOf n o past = (.ok (some c), j)) :
    f.ReadAs o n c.block := by
  obtain ⟨v, j₁, hv, h⟩ := bind_apply_eq_ok_iff.mp h
  split at h
  · obtain ⟨_, _, _, h⟩ := bind_apply_eq_ok_iff.mp h
    cases h
  · rename_i hgiven
    obtain ⟨c', hread, h⟩ := lift_bind_apply_eq_ok_iff.mp h
    cases h
    exact ⟨past, v, _, hv, by simpa using hgiven, claimedNumber_of_readBlock hread⟩

/-! ## The number of a record -/

/-- The number is that of the block, or one that the block was read as. -/
def NumberOf (f : Fetcher) (o : Outside) (n : Int) (q : Quantity) : Prop :=
  ∃ m, q = .int m ∧ (m = n ∨ f.ReadAs o n m)

theorem fetchBlock_numbers (n : Int) :
    Yields o (f.fetchBlock s n) fun b => ∀ p ∈ b.matched, f.NumberOf o b.block p.2.block := by
  have hnumbers : Yields o (f.fetchBlock s n) fun b => ∀ p ∈ b.matched, f.NumberOf o n p.2.block :=
    fetchBlock_all fun past c j hread v r hr =>
      ⟨c.block, Record.block_of_ofTransaction hr, .inr (readAs_of_contentOf hread)⟩
  have hblock : Yields o (f.fetchBlock s n) fun b => n = b.block :=
    fetchBlock_ends_any n
  refine (Ends.and_yields hnumbers hblock).imp fun b h => ?_
  obtain ⟨h, rfl⟩ := h
  exact h

/-- What a trace of the batch adds has the number of the block that it is added to. -/
theorem admits_numbers : f.Admits o fun n p => f.NumberOf o n p.2.block where
  fetched := fun hr => ⟨_, Record.block_of_ofTransaction hr, .inl rfl⟩
  lookedUp := fun _ h => ⟨_, ((resolve_from _).ok (Prod.ext h rfl) _ rfl).block_int, .inl rfl⟩

/-- The endpoint always answers the request for the block with one that goes by another number, and that
has a direct call. -/
def Displaced (f : Fetcher) (o : Outside) (n : Int) : Prop :=
  ∀ past, ∃ c j, f.contentOf n o past = (.ok (some c), j) ∧ c.block ≠ n ∧ c.direct ≠ []

/-- A record of another block stands in the result. -/
def Misplaces (n : Int) (b : BlockResult) : Prop :=
  ∃ name r, b.matched.get? name = some r ∧ r.block ≠ .int n

/-- The first direct call of such a block is misplaced. -/
theorem fetchBlock_displaced (h : f.Displaced o n) :
    Yields o (f.fetchBlock s n) (Misplaces n) := by
  refine .of_cases fun past => ?_
  obtain ⟨c, j, hc, hne, hdirect⟩ := h past
  rw [fetchBlock_of_content s hc]
  refine Ends.cases ((matchContent_extends n c).imp fun b hextends => ?_) j
  have hmatched : c.Matched f.target := (contentOf_matched n).ok hc c rfl
  have hblock : ∀ p ∈ c.direct, p.2.block = .int c.block :=
    directCalls_all (fun _ _ hr => Record.block_of_ofTransaction hr) (by simp) hmatched
  rcases hfound : c.direct with _ | ⟨⟨name, r⟩, rest⟩
  · exact absurd hfound hdirect
  · have hr : r.block = .int c.block := hblock (name, r) (by simp [hfound])
    refine ⟨name, r, hextends.matched name r ?_, ?_⟩
    · simp [untraced, OrderedMap.get?, hfound]
    · rw [hr]
      simpa using hne

/-! ## The range -/

/-- What holds of each block, and of all that extends its result, holds of a fetch that returns,
whichever way of tracing is settled on. -/
theorem fetch_covers {R : Int → BlockResult → Prop} {size : Int} (hs : f.batchSize.index? = some size)
    (hsize : 1 ≤ size) {a b : Int} (h0 : 0 ≤ a) (hab : a ≤ b)
    (hkeep : ∀ n b b', R n b → b.Extends b' → R n b')
    (hblock : ∀ s n, a ≤ n → n ≤ b → Yields o (f.fetchBlock s n) (R n)) :
    Yields o (f.fetch (.int a) (.int b)) (Fetched.Covers R a b) := by
  rw [fetch_eq_settled h0 hab]
  refine .bind .any fun started _ => .bind .any fun cap _ => ?_
  refine fetchWith_ends hs hsize hab started (fun _ _ _ => trivial) (fun _ _ _ => trivial)
    fun first last hfirst _ hlast => ?_
  refine fetchBatch_keeps (fun _ => hkeep) fun n hn => ?_
  obtain ⟨hn, hn'⟩ := mem_blocksBetween.mp hn
  exact hblock _ n (by omega) (by omega)

theorem fetch_blocks {size : Int} (hs : f.batchSize.index? = some size) (hsize : 1 ≤ size) {a b : Int} (h0 : 0 ≤ a)
    (hab : a ≤ b) : Yields o (f.fetch (.int a) (.int b)) fun r => r.blocks.map (·.block) = blocksBetween a b := by
  have hcovers : Yields o (f.fetch (.int a) (.int b)) (Fetched.Covers (fun n block => n = block.block) a b) :=
    fetch_covers hs hsize h0 hab (fun _ _ _ hn hextends => hn.trans hextends.block.symm) fun _ n _ _ =>
      fetchBlock_ends_any n
  exact hcovers.imp fun r h => (forall₂_map_eq.mp h.1.flip).symm

theorem fetch_displaced {size : Int} (hs : f.batchSize = .int size) (hsize : 1 ≤ size) {a b : Int}
    (h0 : 0 ≤ a) (hab : a ≤ b) : Yields o (f.fetch (.int a) (.int b))
      (Fetched.Covers (fun n b => n = b.block ∧ (f.Displaced o n → Misplaces n b)) a b) := by
  refine fetch_covers (by rw [hs]; rfl) hsize h0 hab ?_ fun s n _ _ => ?_
  · intro n b b' h hextends
    obtain ⟨hblock, h⟩ := h
    refine ⟨hblock.trans hextends.block.symm, fun hdisplaced => ?_⟩
    obtain ⟨name, r, hr, hne⟩ := h hdisplaced
    exact ⟨name, r, hextends.matched name r hr, hne⟩
  · have hblock : Yields o (f.fetchBlock s n) fun b => n = b.block :=
      fetchBlock_ends_any n
    by_cases hdisplaced : f.Displaced o n
    · exact (Ends.and_yields hblock (fetchBlock_displaced hdisplaced)).imp fun _ h => ⟨h.1, fun _ => h.2⟩
    · exact hblock.imp fun _ h => ⟨h, fun h' => absurd h' hdisplaced⟩

/-! ## A record of another block -/

/-- A block with a direct call, which goes by the number five. -/
def movedBlock : Json := .obj [("number", .str (hexNumeral 5)), ("transactions", .arr [directTransaction])]

/-- Every request for a block is answered with this one. -/
def movedEndpoint : Outside := Client.answering fun request =>
  if request.method == "eth_getBlockByNumber" then some movedBlock else none

/-- What is read of it: its only record is one of block five. -/
theorem contentOf_moved (n : Int) : ∃ r : Record, r.block = .int 5 ∧
    Ensures movedEndpoint (directFetcher.contentOf n) (· = some ⟨5, [directTransaction], [(r.hash, r)]⟩) := by
  obtain ⟨r, hr⟩ := directCalls_directTransaction 5
  have hblock : r.block = .int 5 :=
    directCalls_all (I := fun p => p.2.block = .int 5) (fun _ _ h => Record.block_of_ofTransaction h) (by simp)
      hr (r.hash, r) (by simp)
  have hread : readBlock directFetcher.target n movedBlock = .ok ⟨5, [directTransaction], [(r.hash, r)]⟩ :=
    readBlock_ok (by decide) rfl rfl (by simp [directTransaction, isObject]) hr
  have hgets : directFetcher.client.Gets movedEndpoint "eth_getBlockByNumber" (blockParams n) movedBlock :=
    Client.gets_answering (k := 4) rfl rfl
  exact ⟨r, hblock, contentOf_ensures rfl hgets hread⟩

theorem displaced_moved (hn : n ≠ 5) : directFetcher.Displaced movedEndpoint n := by
  intro past
  obtain ⟨r, -, hcontent⟩ := contentOf_moved n
  obtain ⟨_, hc, rfl⟩ := hcontent past
  exact ⟨_, _, Prod.ext hc rfl, hn.symm, by simp⟩

/-- **A record need not be of the range.** A fetch of block one returns a record of block five. -/
theorem fetch_of_movedEndpoint :
    create Sample.client (.str Sample.address) (.int 1) (.int 1) false false none false = .ok directFetcher ∧
      ∀ j, ∃ r, (directFetcher.fetch (.int 1) (.int 1) movedEndpoint j).1 = .ok r ∧
        ∃ block, r.blocks = [block] ∧ block.block = 1 ∧
          ∃ name record, block.matched = [(name, record)] ∧ r.records = [record] ∧ record.block = .int 5 := by
  refine ⟨directFetcher_created, fun j => ?_⟩
  obtain ⟨record, hblock, hcontent⟩ := contentOf_moved 1
  have hread : ∀ past, (directFetcher.contentOf 1 movedEndpoint past).1 =
      .ok (some ⟨5, [directTransaction], [(record.hash, record)]⟩) := by
    intro past
    obtain ⟨_, hc, rfl⟩ := hcontent past
    exact hc
  have hreturns : directFetcher.Returns movedEndpoint 1 1
      (Fetched.Covers (fun _ b => b = ⟨1, true, [directTransaction], [(record.hash, record)]⟩) 1 1) := by
    refine fetch_of_blocks rfl (sized_of_create directFetcher_created) (by decide) (Int.le_refl 1)
      (fun h => by simp [Strategy.of, directFetcher] at h) fun n hn hn' => ?_
    obtain rfl : n = 1 := by omega
    exact fetchBlock_direct hread
  obtain ⟨r, hr, hblocks, hrecords⟩ := hreturns.ensures rfl j
  have hall : r.blocks = [⟨1, true, [directTransaction], [(record.hash, record)]⟩] :=
    forall₂_map_eq.mp hblocks
  refine ⟨r, hr, _, hall, rfl, _, record, rfl, ?_, hblock⟩
  rw [hrecords, hall]
  exact List.mergeSort_singleton _

/-- **Records and their blocks.** Whatever the endpoint answers, and whichever way of tracing is settled
on, the blocks that a fetch returns are those of the range, and each record in the result of a block has
its number or one that the block was read as. So if no block of the range is read as another one, each
record is one of the block that it stands with, and all that are returned are of the range. But where a
block with a direct call is always read as another one, every fetch that returns has a record of another
block in its result. -/
theorem fetched_records_placed {client : Client} {target : Json} {size conc : Int} {detect fallback bar : Bool}
    {capability? : Option Capability}
    (hf : create client target (.int size) (.int conc) detect fallback capability? bar = .ok f) {a b : Int}
    (h0 : 0 ≤ a) (hab : a ≤ b) :
    Yields o (f.fetch (.int a) (.int b)) fun r =>
      (∀ block ∈ r.blocks, a ≤ block.block ∧ block.block ≤ b ∧
        ∀ p ∈ block.matched, f.NumberOf o block.block p.2.block) ∧
      ((∀ n m, a ≤ n → n ≤ b → f.ReadAs o n m → m = n) →
        (∀ block ∈ r.blocks, ∀ p ∈ block.matched, p.2.block = .int block.block) ∧
        ∀ record ∈ r.records, ∃ n, record.block = .int n ∧ a ≤ n ∧ n ≤ b) ∧
      ∀ n, a ≤ n → n ≤ b → f.Displaced o n →
        ∃ block ∈ r.blocks, block.block = n ∧ ∃ p ∈ block.matched, p.2.block ≠ .int n := by
  obtain ⟨hsize, -, -, hfields⟩ := create_eq_ok_iff.mp hf
  have hs : f.batchSize = .int size := by rw [hfields]
  have hgathers := fetch_yields (P := fun _ block => ∀ p ∈ block.matched, f.NumberOf o block.block p.2.block)
    f o (.int a) (.int b) fun _ => fetchBatch_all (fun _ => admits_numbers) fetchBlock_numbers
  refine (Ends.and_yields (fetch_displaced hs hsize h0 hab) hgathers).imp fun r h => ?_
  obtain ⟨⟨hcovers, -⟩, hrecords, hnumbers⟩ := h
  have hrange : ∀ block ∈ r.blocks, a ≤ block.block ∧ block.block ≤ b := by
    intro block hblock
    obtain ⟨n, hn, rfl, -⟩ := exists_of_forall₂ hcovers.flip hblock
    obtain ⟨hfirst, hlast⟩ := mem_blocksBetween.mp hn
    exact ⟨hfirst, by omega⟩
  refine ⟨fun block hblock => ⟨(hrange block hblock).1, (hrange block hblock).2, hnumbers block hblock⟩, ?_, ?_⟩
  · intro hown
    have hplaced : ∀ block ∈ r.blocks, ∀ p ∈ block.matched, p.2.block = .int block.block := by
      intro block hblock p hp
      obtain ⟨m, hm, rfl | hread⟩ := hnumbers block hblock p hp
      · exact hm
      · rw [hm, hown _ m (hrange block hblock).1 (hrange block hblock).2 hread]
    refine ⟨hplaced, fun record hrecord => ?_⟩
    rw [hrecords] at hrecord
    obtain ⟨block, hblock, p, hp, rfl⟩ := mem_mergedRecords hrecord
    exact ⟨block.block, hplaced block hblock p hp, hrange block hblock⟩
  · intro n hn hn' hdisplaced
    obtain ⟨block, hblock, heq, hmisplaces⟩ := exists_of_forall₂ hcovers (mem_blocksBetween.mpr ⟨hn, hn'⟩)
    obtain ⟨name, record, hrecord, hne⟩ := hmisplaces hdisplaced
    exact ⟨block, hblock, heq.symm, (name, record), OrderedMap.mem_of_get? hrecord, hne⟩

/-- Block one of three is always answered as block five. -/
theorem fetched_records_placed_moved :
    (create Sample.client (.str Sample.address) (.int 1) (.int 1) false false none false = .ok directFetcher ∧
      (0 : Int) ≤ 0 ∧ (0 : Int) ≤ 2) ∧
    Yields movedEndpoint (directFetcher.fetch (.int 0) (.int 2)) fun r =>
      ∃ block ∈ r.blocks, block.block = 1 ∧ ∃ p ∈ block.matched, p.2.block ≠ .int 1 := by
  refine ⟨⟨directFetcher_created, by decide, by decide⟩, ?_⟩
  have h := fetched_records_placed (o := movedEndpoint) directFetcher_created (by decide : (0 : Int) ≤ 0)
    (by decide : (0 : Int) ≤ 2)
  exact h.imp fun r hr => hr.2.2 1 (by decide) (by decide) (displaced_moved (by decide))

end Fetcher
end AssertionReplay
