/-
From the batches of a range to the fetch of the range.

A relation between a block number and its result that holds of each batch's
blocks, holds of the blocks that the whole fetch returns (`fetch_ends`): they
are those of the range, each once and in order, for every batch size and every
order in which the workers take them. Besides a batch, what can fail a fetch
is its progress bar, if it has one and the clock's readings are out of range
for it (`Undrawn`).
-/
import AssertionReplay.Proofs.Batches

namespace AssertionReplay

open Text

namespace Number

theorem lt_int (a b : Int) : (Number.int a).lt (.int b) = decide (a < b) := by
  by_cases h : a < b <;>
    simp [Number.lt, Number.int, Number.order?, Quantity.toInt, compare, compareOfLessAndEq, h]
  by_cases he : a = b <;> simp [he]

theorem number?_toJson (n : Number) : n.toJson.number? = some n := by
  cases n with
  | whole q => cases q <;> rfl
  | real x => rfl

end Number

namespace Progress

variable {o : Outside} {Q : Fault → Journal → Prop}

/-- A bar over `total` blocks, started at a reading of the clock, with some of the blocks done. -/
structure Of (p : Progress) (o : Outside) (total : Int) : Prop where
  total_eq : p.total = total
  width_eq : p.width = 30
  done_nonneg : 0 ≤ p.done
  done_le : p.done ≤ total
  started : ∃ k, p.started = o.clock k

theorem start_ends {total : Int} (h : 0 ≤ total) :
    Act.Ends o (start total 30) (fun p => p.Of o total) Q :=
  .bind (.now (fun x => ∃ k, x = o.clock k) fun k => ⟨k, rfl⟩) fun _ hstarted =>
    .pure ⟨rfl, rfl, Int.le_refl 0, h, hstarted⟩

theorem Of.advance {total : Int} {p : Progress} (h : p.Of o total) {blocks : Nat} {found failed : Int} :
    (p.advance blocks found failed).Of o total := by
  obtain ⟨htotal, hwidth, hnonneg, hle, hstarted⟩ := h
  refine ⟨htotal, hwidth, ?_, ?_, hstarted⟩ <;> simp only [Progress.advance, htotal] <;> omega

end Progress

/-- The blocks are those from `a` to `b`, `R` holds of each, and the records are theirs. -/
def Fetched.Covers (R : Int → BlockResult → Prop) (a b : Int) (r : Fetched) : Prop :=
  List.Forall₂ R (Fetcher.blocksBetween a b) r.blocks ∧ r.records = Fetcher.mergedRecords r.blocks

namespace Fetcher

variable {o : Outside} {f : Fetcher} {Q : Fault → Journal → Prop} {R : Int → BlockResult → Prop}

/-- What a fetcher is made of: sizes that are numbers not below one, and a target that can be read. -/
theorem create_eq_ok_iff_exists {client : Client} {target size conc : Json} {detect fallback bar : Bool}
    {capability? : Option Capability} :
    create client target size conc detect fallback capability? bar = .ok f ↔
      ∃ n m, size.number? = some n ∧ n.lt (.int 1) = false ∧ conc.number? = some m ∧ m.lt (.int 1) = false ∧
        Address.parse target = .ok f.target ∧ f = {
          client, target := f.target, batchSize := n, concurrency := m
          receiptFallback := fallback, showProgress := bar
          chosen? := if detect then capability? else some .directCallsOnly } := by
  rcases hsize : size.number? with _ | n
  · simp [create, hsize, bind, Except.bind]
  by_cases hn : n.lt (.int 1) = true
  · simp [create, hsize, hn, bind, Except.bind]
  rcases hconc : conc.number? with _ | m
  · simp [create, hsize, hn, hconc, bind, Except.bind]
  by_cases hm : m.lt (.int 1) = true
  · simp [create, hsize, hn, hconc, hm, bind, Except.bind]
  simp only [Bool.not_eq_true] at hn hm
  simp only [create, hsize, hconc, hn, hm, bind, Except.bind, Bool.false_eq_true, if_false]
  rcases htarget : Address.parse target with e | address
  · cases e <;> simp
  · constructor
    · rintro ⟨⟩
      exact ⟨n, m, rfl, hn, rfl, hm, rfl, rfl⟩
    · rintro ⟨n', m', hn', -, hm', -, haddress, hf⟩
      cases hn'
      cases hm'
      cases haddress
      rw [hf]
      rfl

theorem create_eq_ok_iff {client : Client} {target : Json} {size conc : Int} {detect fallback bar : Bool}
    {capability? : Option Capability} :
    create client target (.int size) (.int conc) detect fallback capability? bar = .ok f ↔
      1 ≤ size ∧ 1 ≤ conc ∧ Address.parse target = .ok f.target ∧ f = {
        client, target := f.target, batchSize := .int size, concurrency := .int conc
        receiptFallback := fallback, showProgress := bar
        chosen? := if detect then capability? else some .directCallsOnly } := by
  have hlt : ∀ n : Int, (Number.int n).lt (.int 1) = false ↔ 1 ≤ n := fun n => by
    rw [Number.lt_int, decide_eq_false_iff_not, Int.not_lt]
  rw [create_eq_ok_iff_exists]
  constructor
  · rintro ⟨n, m, hn, hsize, hm, hconc, h⟩
    cases hn
    cases hm
    exact ⟨(hlt size).mp hsize, (hlt conc).mp hconc, h⟩
  · rintro ⟨hsize, hconc, h⟩
    exact ⟨.int size, .int conc, rfl, (hlt size).mpr hsize, rfl, (hlt conc).mpr hconc, h⟩

section

variable {client : Client} {target size conc : Json} {detect fallback bar : Bool} {capability? : Option Capability}
variable (hf : create client target size conc detect fallback capability? bar = .ok f)

include hf

theorem client_of_create : f.client = client := by
  obtain ⟨_, _, -, -, -, -, -, hfields⟩ := create_eq_ok_iff_exists.mp hf
  rw [hfields]

theorem receiptFallback_of_create : f.receiptFallback = fallback := by
  obtain ⟨_, _, -, -, -, -, -, hfields⟩ := create_eq_ok_iff_exists.mp hf
  rw [hfields]

theorem showProgress_of_create : f.showProgress = bar := by
  obtain ⟨_, _, -, -, -, -, -, hfields⟩ := create_eq_ok_iff_exists.mp hf
  rw [hfields]

theorem chosen_of_create : f.chosen? = if detect then capability? else some .directCallsOnly := by
  obtain ⟨_, _, -, -, -, -, -, hfields⟩ := create_eq_ok_iff_exists.mp hf
  rw [hfields]

end

theorem create_same {g : Fetcher} {client : Client} {target : Json} {size conc size' conc' : Int}
    {detect detect' fallback fallback' bar bar' : Bool} {capability? capability'? : Option Capability}
    (hf : create client target (.int size) (.int conc) detect fallback capability? bar = .ok f)
    (hg : create client target (.int size') (.int conc') detect' fallback' capability'? bar' = .ok g) :
    f.contentOf = g.contentOf ∧ f.fetchBlock = g.fetchBlock := by
  obtain ⟨-, -, htarget, hf⟩ := create_eq_ok_iff.mp hf
  obtain ⟨-, -, htarget', hg⟩ := create_eq_ok_iff.mp hg
  have hsame : f.target = g.target := Except.ok.inj (htarget.symm.trans htarget')
  rw [hf, hg, hsame]
  exact ⟨rfl, rfl⟩

theorem fetchBlocks_ends {s : Strategy} {blocks : List Int}
    (h : ∀ n ∈ blocks, Act.Ends o (f.fetchBlock s n) (R n) Q) :
    Act.Ends o (f.fetchBlocks s blocks) (List.Forall₂ R blocks) Q := by
  unfold fetchBlocks
  refine Act.Ends.bind (.outside (P := (· = o)) rfl) ?_
  intro o' ho
  subst ho
  have hp := o'.schedule.perm blocks
  refine Act.Ends.bind
    (P := List.Forall₂ (fun n p => p.1 = n ∧ R n p.2) (o'.schedule.order blocks)) ?_ ?_
  · refine .mapEach fun n hn => ?_
    exact Act.Ends.bind (h n (hp.mem_iff.mp hn)) fun r hr => .pure ⟨rfl, hr⟩
  · exact fun done hdone => .pure (inBlockOrder_forall₂ hp hdone)

/-! ## Ranges -/

theorem checkRange_int {a b : Int} (h0 : 0 ≤ a) (hab : a ≤ b) : checkRange (.int a) (.int b) = .ok () := by
  unfold checkRange
  simp only [Number.lt_int]
  rw [if_neg (by simp; omega), if_neg (by simp; omega)]

theorem rangeOf_int {a b : Int} (h0 : 0 ≤ a) (hab : a ≤ b) :
    rangeOf (.int a) (.int b) = .ok (.int a, .int b) := by
  show (checkRange (.int a) (.int b)).map (fun _ => (Number.int a, Number.int b)) = _
  rw [checkRange_int h0 hab]
  rfl

theorem bounds_of_rangeOf {a b : Int} {p : Number × Number} (h : rangeOf (.int a) (.int b) = .ok p) :
    0 ≤ a ∧ a ≤ b ∧ p = (.int a, .int b) := by
  have hmap : (checkRange (.int a) (.int b)).map (fun _ => (Number.int a, Number.int b)) = .ok p := h
  unfold checkRange at hmap
  simp only [Number.lt_int, Bool.or_eq_true, decide_eq_true_eq] at hmap
  split at hmap
  · cases hmap
  split at hmap
  · cases hmap
  · cases hmap
    exact ⟨by omega, by omega, rfl⟩

/-! ## The way of tracing -/

/-- The fetcher with the way of tracing settled. -/
def settled (f : Fetcher) (way : Capability) : Fetcher := { f with chosen? := some way }

section

variable {first last : Json} {j j' : Journal} {outcome : Except Fault Fetched}

theorem run_refused {e : Fault} (hrange : rangeOf first last = .error e) :
    f.run first last o j = (.ok (f, .error e), j) := by
  unfold run
  rw [hrange]
  rfl

theorem run_unselected {a b : Number} {e : Fault} (hrange : rangeOf first last = .ok (a, b))
    (hway : f.capabilityFor a o (j ++ [.clock]) = (.error e, j')) :
    f.run first last o j = (.ok (f, .error e), j') := by
  unfold run
  rw [hrange]
  dsimp only
  rw [Act.bind_apply_of_ok Act.now_apply, Act.bind_apply_of_ok (Act.attempt_apply hway)]
  rfl

theorem run_selected {a b : Number} {way : Capability} {j₁ : Journal} (hrange : rangeOf first last = .ok (a, b))
    (hway : f.capabilityFor a o (j ++ [.clock]) = (.ok way, j₁))
    (hfetch : f.fetchWith way (o.clock j.clockReads) a b o j₁ = (outcome, j')) :
    f.run first last o j = (.ok (f.settled way, outcome), j') := by
  unfold run
  rw [hrange]
  dsimp only
  rw [Act.bind_apply_of_ok Act.now_apply, Act.bind_apply_of_ok (Act.attempt_apply hway)]
  dsimp only
  rw [Act.bind_apply_of_ok (Act.attempt_apply hfetch)]
  rfl

end

/-- The way of tracing is settled before the first batch, and a fault of settling it is one of the fetch. -/
theorem fetch_eq_settled {a b : Int} (h0 : 0 ≤ a) (hab : a ≤ b) : f.fetch (.int a) (.int b) =
    Act.now >>= fun started => f.capabilityFor (.int a) >>= fun cap =>
      f.fetchWith cap started (.int a) (.int b) := by
  funext o j
  unfold fetch
  rw [Act.bind_apply_of_ok Act.now_apply]
  rcases hcap : f.capabilityFor (.int a) o (j ++ [.clock]) with ⟨e | cap, j₁⟩
  · rw [Act.bind_apply_of_ok (run_unselected (rangeOf_int h0 hab) hcap), Act.bind_apply_of_error hcap]
    rfl
  · rcases hfetch : f.fetchWith cap (o.clock j.clockReads) (.int a) (.int b) o j₁ with ⟨outcome, j₂⟩
    rw [Act.bind_apply_of_ok (run_selected (rangeOf_int h0 hab) hcap hfetch), Act.bind_apply_of_ok hcap, hfetch]
    exact Act.lift_apply _ _ _

/-- With the way of tracing fixed, nothing is asked for before the first batch. -/
theorem capabilityFor_chosen {cap : Capability} (hc : f.chosen? = some cap) (block : Number) :
    Act.Ensures o (f.capabilityFor block) (· = cap) := by
  unfold capabilityFor
  rw [hc]
  exact fun _ => ⟨cap, rfl, rfl⟩

/-! ## What a fetch does around its batches -/

theorem logStatistics_ends (r : Fetched) : Act.Ends o (logStatistics r) (fun _ => True) Q := by
  have hrate : Act.Ends o (if r.duration.orderInt? 0 == some .gt then
      Act.log .info ("Average: " ++ ((Binary64.ofInt r.blocksProcessed).div r.duration).fixed 2 ++
        " blocks/sec, " ++ ((Binary64.ofInt r.records.length).div r.duration).fixed 2 ++
        " transactions/sec") else pure ()) (fun _ => True) Q := by
    split <;> exact fun _ => trivial
  unfold logStatistics
  refine .after_log (.after_log ?_)
  dsimp only
  split
  · exact .after_log hrate
  · exact hrate

/-- The sizes that a fetcher works with: batches of a whole number of blocks, one at least, and a number
of workers that is not infinite. -/
structure Sized (f : Fetcher) (size : Int) : Prop where
  batch : f.batchSize.index? = some size
  batch_pos : 1 ≤ size
  workers : ∃ n, Field.whole f.concurrency.toJson = .ok n

theorem sized_of_create {client : Client} {target : Json} {size conc : Int} {detect fallback bar : Bool}
    {capability? : Option Capability}
    (hf : create client target (.int size) (.int conc) detect fallback capability? bar = .ok f) : f.Sized size := by
  obtain ⟨hsize, -, -, hfields⟩ := create_eq_ok_iff.mp hf
  rw [hfields]
  exact ⟨rfl, hsize, conc, rfl⟩

theorem whole_of_index? {n : Number} {m : Int} (h : n.index? = some m) : Field.whole n.toJson = .ok m := by
  cases n with
  | real x => cases h
  | whole q =>
    cases h
    cases q <;> rfl

/-- Between whole bounds, and with batches of a whole number of blocks, only the number of workers can have
no whole part. -/
theorem checkWhole_eq {size a b : Int} (hs : f.batchSize.index? = some size) :
    checkWhole [.int a, .int b, f.batchSize, f.concurrency] =
      (Field.whole f.concurrency.toJson).map fun _ => () := by
  have hint : ∀ n : Int, Field.whole (Number.int n).toJson = .ok n := fun _ => rfl
  simp only [checkWhole, hint, whole_of_index? hs, bind, Except.bind]
  cases Field.whole f.concurrency.toJson <;> rfl

/-! ## Bars that cannot be drawn -/

/-- The fetch has a bar, and cannot draw it. -/
def Undrawn (f : Fetcher) (o : Outside) (a b : Int) (e : Fault) (j : Journal) : Prop :=
  f.showProgress = true ∧ ∃ p : Progress, p.Of o (b + 1 - a) ∧ ∃ past, p.redraw o past = (.error e, j)

/-- The bars over `total` blocks can be drawn, or fail as `Q` tells. -/
def Draws (o : Outside) (total : Int) (Q : Fault → Journal → Prop) : Prop :=
  ∀ p : Progress, p.Of o total → Act.Ends o p.redraw (fun _ => True) Q

theorem draws_undrawn {a b : Int} (h : f.showProgress = true) :
    Draws o (b + 1 - a) (f.Undrawn o a b) := by
  refine fun p hp => .of_cases fun past => ?_
  rcases hr : p.redraw o past with ⟨e | _, j⟩
  · exact .inr ⟨e, j, rfl, h, p, hp, past, hr⟩
  · exact .inl ⟨_, j, rfl, trivial⟩

/-- What the fetch returns satisfies `P`. Without a bar it always returns, and with one it can fail only
at drawing it. -/
structure Returns (f : Fetcher) (o : Outside) (a b : Int) (P : Fetched → Prop) : Prop where
  ends : Act.Ends o (f.fetch (.int a) (.int b)) P (f.Undrawn o a b)
  ensures : f.showProgress = false → Act.Ensures o (f.fetch (.int a) (.int b)) P

theorem returns_of_ends {a b : Int} {P : Fetched → Prop}
    (h : Act.Ends o (f.fetch (.int a) (.int b)) P (f.Undrawn o a b)) : f.Returns o a b P := by
  refine ⟨h, fun hbar => (h.mono (fun _ h => h) fun _ _ hundrawn => ?_).ensures⟩
  rw [hundrawn.1] at hbar
  cases hbar

theorem Returns.imp {a b : Int} {P P' : Fetched → Prop} (h : f.Returns o a b P) (hP : ∀ r, P r → P' r) :
    f.Returns o a b P' :=
  returns_of_ends (h.ends.imp hP)

/-! ## The batches, and the fetch -/

theorem fetchBatches_ends {s : Strategy} {total : Int} {ps : List (Int × Int)}
    (hbatch : ∀ p ∈ ps, Act.Ends o (f.fetchBatch s p.1 p.2) (List.Forall₂ R (blocksBetween p.1 p.2)) Q)
    {position : Nat} {progress? : Option Progress}
    (hp : ∀ p ∈ progress?, p.Of o total ∧ Draws o total Q) :
    Act.Ends o (f.fetchBatches s position progress? ps)
      (List.Forall₂ R (ps.flatMap fun p => blocksBetween p.1 p.2)) Q := by
  induction ps generalizing position progress? with
  | nil =>
    rw [fetchBatches]
    split
    · exact .after_draw (.pure .nil)
    · exact .pure .nil
  | cons p ps ih =>
    obtain ⟨first, last⟩ := p
    rw [fetchBatches]
    refine .after_log (.bind (hbatch (first, last) (by simp)) fun results hresults => ?_)
    have hrest : ∀ next? : Option Progress, (∀ p ∈ next?, p.Of o total ∧ Draws o total Q) →
        Act.Ends o (do return results ++ (← f.fetchBatches s (position + 1) next? ps))
          (List.Forall₂ R (((first, last) :: ps).flatMap fun p => blocksBetween p.1 p.2)) Q := by
      intro next? hnext
      refine .bind (ih (fun p hp => hbatch p (by simp [hp])) hnext) fun rest hrest => .pure ?_
      rw [List.flatMap_cons]
      exact List.rel_append hresults hrest
    cases progress? with
    | none =>
      have hnone := hrest none (by simp)
      dsimp only [Option.map_none]
      split
      · exact .after_log hnone
      · exact hnone
    | some bar =>
      obtain ⟨hof, hdraws⟩ := hp bar rfl
      have hnext : ∀ {found failed : Int}, (bar.advance results.length found failed).Of o total :=
        hof.advance
      dsimp only [Option.map_some]
      split
      · exact .after_log (.bind (hdraws _ hnext) fun _ _ => hrest _ (by simpa using ⟨hnext, hdraws⟩))
      · exact .bind (hdraws _ hnext) fun _ _ => hrest _ (by simpa using ⟨hnext, hdraws⟩)

theorem allBatches_ends {cap : Capability} {size : Int} (hsize : 1 ≤ size) {a b : Int}
    {started : Binary64} {total : Int} {progress? : Option Progress}
    (hp : ∀ p ∈ progress?, p.Of o total ∧ Draws o total Q)
    (hbatch : ∀ first last, a ≤ first → first ≤ last → last ≤ b →
      Act.Ends o (f.fetchBatch (.of cap f.receiptFallback) first last)
        (List.Forall₂ R (blocksBetween first last)) Q) :
    Act.Ends o (do
      let blocks ← f.fetchBatches (.of cap f.receiptFallback) 0 progress? (batches size.toNat a b)
      let result := {
        records := mergedRecords blocks
        capability := cap, blocks
        duration := (← Act.now).sub started : Fetched }
      logStatistics result
      return result) (Fetched.Covers R a b) Q := by
  refine .bind (fetchBatches_ends (R := R) (fun p hp => ?_) hp) fun blocks hblocks => ?_
  · obtain ⟨hfirst, hle, hlast⟩ := mem_batches hp
    exact hbatch p.1 p.2 hfirst hle hlast
  · rw [batches_tile (by omega)] at hblocks
    refine .bind (.now (fun _ => True) fun _ => trivial) fun ended _ => ?_
    exact .bind (logStatistics_ends _) fun _ _ => .pure ⟨hblocks, rfl⟩

/-- What a fetch does once the way of tracing is settled. -/
theorem fetchWith_ends {cap : Capability} {size : Int} (hs : f.batchSize.index? = some size) (hsize : 1 ≤ size)
    {a b : Int} (hab : a ≤ b) (started : Binary64)
    (hworkers : ∀ e j, Field.whole f.concurrency.toJson = .error e → Q e j)
    (hdraw : ∀ e j, f.Undrawn o a b e j → Q e j)
    (hbatch : ∀ first last, a ≤ first → first ≤ last → last ≤ b →
      Act.Ends o (f.fetchBatch (.of cap f.receiptFallback) first last)
        (List.Forall₂ R (blocksBetween first last)) Q) :
    Act.Ends o (f.fetchWith cap started (.int a) (.int b)) (Fetched.Covers R a b) Q := by
  have hstart : Act.Ends o (do
      checkWhole [.int a, .int b, f.batchSize, f.concurrency]
      Act.logWritten .info none (f.rangeLine (.int a) (.int b))
      let progress? ←
        if f.showProgress then some <$> Progress.start (← blockCount (.int a) (.int b)) 30
        else Act.pure none
      let blocks ← f.fetchBatches (.of cap f.receiptFallback) 0 progress? (batches size.toNat a b)
      let result := {
        records := mergedRecords blocks
        capability := cap, blocks
        duration := (← Act.now).sub started : Fetched }
      logStatistics result
      return result) (Fetched.Covers R a b) Q := by
    rw [checkWhole_eq hs]
    rcases hwhole : Field.whole f.concurrency.toJson with e | n
    · exact fun j => hworkers e j hwhole
    rw [Except.map, Act.lift_ok_bind]
    refine .after_logWritten ?_
    by_cases hbar : f.showProgress = true
    · rw [if_pos hbar]
      have hcount : blockCount (.int a) (.int b) = .ok (b + 1 - a) := by
        show Except.ok (b - a + 1) = _
        congr 1
        omega
      rw [hcount, Act.lift_ok_bind]
      have hdraws : Draws o (b + 1 - a) Q := fun p hp =>
        (draws_undrawn hbar p hp).mono (fun _ h => h) hdraw
      refine .bind (P := fun bar? => ∀ p ∈ bar?, p.Of o (b + 1 - a)) ?_ fun bar? hp =>
        allBatches_ends hsize (fun p hmem => ⟨hp p hmem, hdraws⟩) hbatch
      exact .map ((Progress.start_ends (by omega)).imp fun p hp => by simpa using hp)
    · rw [if_neg hbar]
      have hnone : ∀ p ∈ (none : Option Progress), p.Of o 0 ∧ Draws o 0 Q := by simp
      exact allBatches_ends hsize hnone hbatch
  unfold fetchWith
  rw [hs]
  dsimp only
  split
  · split
    · exact .after_log hstart
    · exact .after_log hstart
  · exact hstart

/-- **Fetching a range.** What holds of each block of each batch holds of the blocks that a fetch
returns, one for each of the range and in its order; the fetch fails only where a batch does, or where
its bar cannot be drawn. -/
theorem fetch_ends_settled {cap : Capability} {size : Int} (hf : f.Sized size)
    {a b : Int} (hway : Act.Ensures o (f.capabilityFor (.int a)) (· = cap)) (h0 : 0 ≤ a) (hab : a ≤ b)
    (hdraw : ∀ e j, f.Undrawn o a b e j → Q e j)
    (hbatch : ∀ first last, a ≤ first → first ≤ last → last ≤ b →
      Act.Ends o (f.fetchBatch (.of cap f.receiptFallback) first last)
        (List.Forall₂ R (blocksBetween first last)) Q) :
    Act.Ends o (f.fetch (.int a) (.int b)) (Fetched.Covers R a b) Q := by
  rw [fetch_eq_settled h0 hab]
  refine .bind (.now (fun _ => True) fun _ => trivial) fun started _ => ?_
  refine .bind_eq hway.ends (fetchWith_ends hf.batch hf.batch_pos hab started (fun e j h => ?_) hdraw hbatch)
  obtain ⟨n, hn⟩ := hf.workers
  rw [hn] at h
  cases h

/-- The same with the way of tracing fixed. -/
theorem fetch_ends {cap : Capability} (hc : f.chosen? = some cap) {size : Int} (hf : f.Sized size)
    {a b : Int} (h0 : 0 ≤ a) (hab : a ≤ b) (hdraw : ∀ e j, f.Undrawn o a b e j → Q e j)
    (hbatch : ∀ first last, a ≤ first → first ≤ last → last ≤ b →
      Act.Ends o (f.fetchBatch (.of cap f.receiptFallback) first last)
        (List.Forall₂ R (blocksBetween first last)) Q) :
    Act.Ends o (f.fetch (.int a) (.int b)) (Fetched.Covers R a b) Q :=
  fetch_ends_settled hf (capabilityFor_chosen hc _) h0 hab hdraw hbatch

end Fetcher
end AssertionReplay
