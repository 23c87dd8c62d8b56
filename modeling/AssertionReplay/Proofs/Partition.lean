/-
How a range is cut into batches, and who fetches them, makes no difference.

From an endpoint that replies to the same request always in the same way, a
fetch that goes block by block returns what the single blocks come to, one
after another (`fetch_reads`). So it returns the same whatever the size of the
batches, the number of workers and the order in which they take the blocks,
and what it returns of a range is what it returns of two parts of it put
together (`fetch_partition`).
-/
import AssertionReplay.Proofs.Agreement
import AssertionReplay.Proofs.Determinacy
import AssertionReplay.Proofs.TraceAdditions

namespace AssertionReplay

open Text

namespace Fetcher

variable {o o' : Outside} {f g : Fetcher} {block : Int → BlockResult} {a b : Int}

/-- **What a block comes to** is settled by the replies, and every block comes to a result. -/
theorem exists_fetchBlock_eq (answer : Request → Reply) (limit? : Option PauseLimit) (f : Fetcher) (s : Strategy)
    (n : Int) : ∃ r, ∀ o, o.Behaves (fun _ => True) answer limit? → ∀ j, (f.fetchBlock s n o j).1 = .ok r := by
  obtain ⟨outcome, houtcome⟩ := fetchBlock_settled answer limit? f s n
  refine ⟨outcome.toOption.getD (.failed n), fun o ho j => ?_⟩
  obtain ⟨r, hr, -⟩ := (fetchBlock_ends_any (o := o) (f := f) (s := s) n).ensures j
  rw [hr]
  rw [← houtcome o ho j, hr]
  rfl

/-! ## A fetch, block by block -/

/-- **A fetch is what its blocks come to.** -/
theorem fetch_reads {cap : Capability} (hc : f.chosen? = some cap) (hcap : cap ≠ .traceFilter) {size : Int}
    (hf : f.Sized size) (h0 : 0 ≤ a) (hab : a ≤ b)
    (hblock : ∀ n j, (f.fetchBlock (.of cap f.receiptFallback) n o j).1 = .ok (block n)) :
    f.Returns o a b fun r => r.blocks = (blocksBetween a b).map block ∧ r.records = mergedRecords r.blocks := by
  have hkeep : Strategy.of cap f.receiptFallback ≠ .traceFilter := mt Strategy.of_eq_traceFilter_iff.mp hcap
  refine (fetch_of_blocks (R := fun n r => r = block n) hc hf h0 hab (fun h => absurd h hkeep) fun n _ _ => ?_).imp
    fun r h => ⟨forall₂_map_eq.mp h.1, h.2⟩
  exact .of_cases fun j => .inl ⟨block n, _, Prod.ext (hblock n j) rfl, rfl⟩

/-- **How a range is fetched makes no difference.** Two fetches that go block by block, with batches of
any size and workers in any order, return the same results and records. What one of them returns of a
range, the other returns of two parts of it, one after the other; and what one returns of the two parts,
the other returns of the range. -/
theorem fetch_partition {client : Client} {target : Json} {size conc size' conc' : Int}
    {detect detect' fallback bar bar' : Bool} {capability? capability'? : Option Capability}
    (hf : create client target (.int size) (.int conc) detect fallback capability? bar = .ok f)
    (hg : create client target (.int size') (.int conc') detect' fallback capability'? bar' = .ok g)
    {cap : Capability} (hc : f.chosen? = some cap) (hc' : g.chosen? = some cap) (hcap : cap ≠ .traceFilter)
    {answer : Request → Reply} (ho : ∀ past request, o.reply past request = answer request)
    (ho' : ∀ past request, o'.reply past request = answer request) (hpauses : o'.pauseLimit? = o.pauseLimit?)
    {a b : Int} (h0 : 0 ≤ a) (hab : a ≤ b) :
    (f.Returns o a b fun r =>
      (g.Returns o' a b fun r' => r'.blocks = r.blocks ∧ r'.records = r.records) ∧
      ∀ m, a ≤ m → m < b → ∃ left right, r.blocks = left ++ right ∧
        (g.Returns o' a m fun r' => r'.blocks = left) ∧ g.Returns o' (m + 1) b fun r' => r'.blocks = right) ∧
    ∀ m, a ≤ m → m < b → f.Returns o a m fun left => f.Returns o (m + 1) b fun right =>
      g.Returns o' a b fun r => r.blocks = left.blocks ++ right.blocks := by
  have hfallback : f.receiptFallback = g.receiptFallback :=
    (receiptFallback_of_create hf).trans (receiptFallback_of_create hg).symm
  obtain ⟨-, hsame⟩ := create_same hf hg
  choose block hblock using exists_fetchBlock_eq answer o.pauseLimit? f (.of cap f.receiptFallback)
  have hblock_g : ∀ n j, (g.fetchBlock (.of cap g.receiptFallback) n o' j).1 = .ok (block n) := by
    rw [← hfallback, ← hsame]
    exact fun n => hblock n o' ⟨fun past request _ => ho' past request, hpauses⟩
  -- Of every range, both of them return what its blocks come to.
  have hreads : ∀ {a b : Int}, 0 ≤ a → a ≤ b → f.Returns o a b fun r =>
      r.blocks = (blocksBetween a b).map block ∧ r.records = mergedRecords r.blocks := fun h0 hab =>
    fetch_reads hc hcap (sized_of_create hf) h0 hab fun n => hblock n o ⟨fun past request _ => ho past request, rfl⟩
  have hreads' : ∀ {a b : Int}, 0 ≤ a → a ≤ b → g.Returns o' a b fun r =>
      r.blocks = (blocksBetween a b).map block ∧ r.records = mergedRecords r.blocks := fun h0 hab =>
    fetch_reads hc' hcap (sized_of_create hg) h0 hab hblock_g
  have hsplit : ∀ m, a ≤ m → m < b → (blocksBetween a b).map block =
      (blocksBetween a m).map block ++ (blocksBetween (m + 1) b).map block := fun m ham hmb => by
    rw [blocksBetween_split a m b (by omega) (by omega), List.map_append]
  constructor
  · refine (hreads h0 hab).imp fun r h => ?_
    obtain ⟨hblocks, hrecords⟩ := h
    refine ⟨(hreads' h0 hab).imp fun r' h' => ?_, fun m ham hmb => ?_⟩
    · have heq : r'.blocks = r.blocks := h'.1.trans hblocks.symm
      exact ⟨heq, by rw [h'.2, heq, hrecords]⟩
    · exact ⟨_, _, hblocks.trans (hsplit m ham hmb), (hreads' h0 ham).imp fun _ h' => h'.1,
        (hreads' (by omega) (by omega)).imp fun _ h' => h'.1⟩
  · intro m ham hmb
    refine (hreads h0 ham).imp fun left hleft => (hreads (by omega) (by omega)).imp fun right hright => ?_
    refine (hreads' h0 hab).imp fun r hr => ?_
    rw [hr.1, hleft.1, hright.1, hsplit m ham hmb]

/-- A fetcher for the sample that takes both blocks in one batch, and has one worker. -/
def pairFetcher : Fetcher := { sampleFetcher .traceBlock with batchSize := .int 2, concurrency := .int 1 }

/-- The truth about the sample, with workers that take the blocks of a batch backwards. -/
def backwards : Outside :=
  { Sample.truthful with schedule := ⟨List.reverse, List.reverse_perm⟩ }

/-- The sample, block by block and both blocks at once. -/
theorem fetch_partition_sample :
    (create Sample.client (.str Sample.address) (.int 1) (.int 2) true false (some .traceBlock) false =
        .ok (sampleFetcher .traceBlock) ∧
      create Sample.client (.str Sample.address) (.int 2) (.int 1) true false (some .traceBlock) false =
        .ok pairFetcher ∧
      (sampleFetcher .traceBlock).chosen? = some .traceBlock ∧ pairFetcher.chosen? = some .traceBlock ∧
      Capability.traceBlock ≠ .traceFilter ∧
      (∀ past request, Sample.truthful.reply past request = Sample.truthful.reply [] request) ∧
      (∀ past request, backwards.reply past request = Sample.truthful.reply [] request) ∧
      backwards.pauseLimit? = Sample.truthful.pauseLimit? ∧
      (0 : Int) ≤ 1 ∧ (1 : Int) ≤ 2) ∧
    ∃ r j, (sampleFetcher .traceBlock).fetch (.int 1) (.int 2) Sample.truthful [] = (.ok r, j) ∧
      r.records = (Sample.blockOne ++ Sample.blockTwo).map (·.record) ∧
      Act.Ensures backwards (pairFetcher.fetch (.int 1) (.int 2)) (fun r' =>
        r'.blocks = r.blocks ∧ r'.records = r.records) ∧
      ∃ left right, r.blocks = left ++ right ∧
        Act.Ensures backwards (pairFetcher.fetch (.int 1) (.int 1)) (fun r' => r'.blocks = left) ∧
        Act.Ensures backwards (pairFetcher.fetch (.int 2) (.int 2)) fun r' => r'.blocks = right := by
  have hf := sampleFetcher_created .traceBlock
  have hg : create Sample.client (.str Sample.address) (.int 2) (.int 1) true false (some .traceBlock) false =
      .ok pairFetcher := create_eq_ok_iff.mpr ⟨by decide, by decide, Sample.parse_address, rfl⟩
  have hcap : Capability.traceBlock ≠ .traceFilter := by decide
  have hsame : ∀ past request, Sample.truthful.reply past request = Sample.truthful.reply [] request :=
    fun _ _ => rfl
  have hback : ∀ past request, backwards.reply past request = Sample.truthful.reply [] request := fun _ _ => rfl
  refine ⟨⟨hf, hg, rfl, rfl, hcap, hsame, hback, rfl, by decide, by decide⟩, ?_⟩
  have htells : Sample.chain.Tells Sample.truthful Sample.client (fun _ => false) 1 2 (.of .traceBlock false) :=
    Sample.tracesBlocks (by decide)
  have hfetch := fetch_tells (f := sampleFetcher .traceBlock) rfl (sized_of_create hf) (by decide) (by decide) hcap
    (Sample.served (by decide)) htells
  obtain ⟨hwhole, -⟩ := fetch_partition hf hg rfl rfl hcap hsame hback rfl (by decide : (0 : Int) ≤ 1)
    (by decide : (1 : Int) ≤ 2)
  obtain ⟨r, hr, hrecords, -⟩ := hfetch.ensures rfl []
  obtain ⟨hagain, hparts⟩ := hwhole.ends.ok (Prod.ext hr rfl)
  obtain ⟨left, right, heq, hleft, hright⟩ := hparts 1 (by decide) (by decide)
  refine ⟨r, _, Prod.ext hr rfl, ?_, hagain.ensures rfl, left, right, heq, hleft.ensures rfl, hright.ensures rfl⟩
  refine hrecords.trans (Sample.records_all fun n t ht => ?_)
  rw [found_all fun _ => rfl, Bool.or_eq_true]
  exact .inr (Sample.reaches_address ht)

end Fetcher
end AssertionReplay
