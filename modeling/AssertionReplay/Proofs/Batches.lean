/-
How a range is cut and put together again.

The batches of a range tile it: one after another they hold its blocks in
order, each once, whatever their size (`batches_tile`). The workers may take
the blocks of a batch in any order; their results come back in the order of
the blocks (`inBlockOrder_forall₂`).
-/
import AssertionReplay.Fetch.Range
import AssertionReplay.Proofs.Outcome

namespace AssertionReplay.Fetcher

theorem blocksFrom_eq (first : Int) (count : Nat) :
    blocksFrom first count = (List.range count).map fun i : Nat => first + i := by
  induction count generalizing first with
  | zero => rfl
  | succ count ih =>
    rw [blocksFrom, ih, List.range_succ_eq_map, List.map_cons, List.map_map]
    simp only [Int.natCast_zero, Int.add_zero, List.cons.injEq, true_and]
    refine List.map_congr_left fun i _ => ?_
    simp only [Function.comp_apply]
    omega

theorem blocksBetween_eq (first last : Int) : blocksBetween first last =
    (List.range (last + 1 - first).toNat).map fun i : Nat => first + i :=
  blocksFrom_eq first _

theorem mem_blocksBetween {first last n : Int} :
    n ∈ blocksBetween first last ↔ first ≤ n ∧ n ≤ last := by
  simp only [blocksBetween_eq, List.mem_map, List.mem_range]
  constructor
  · intro h
    obtain ⟨i, hi, rfl⟩ := h
    omega
  · intro h
    exact ⟨(n - first).toNat, by omega, by omega⟩

theorem pairwise_blocksBetween (first last : Int) :
    (blocksBetween first last).Pairwise (· < ·) := by
  rw [blocksBetween_eq, List.pairwise_map]
  exact List.pairwise_lt_range.imp fun h => by omega

theorem nodup_blocksBetween (first last : Int) : (blocksBetween first last).Nodup :=
  (pairwise_blocksBetween first last).imp fun h => by omega

theorem blocksFrom_add (first : Int) (m n : Nat) :
    blocksFrom first (m + n) = blocksFrom first m ++ blocksFrom (first + m) n := by
  induction m generalizing first with
  | zero => simp [blocksFrom]
  | succ m ih =>
    rw [Nat.succ_add_eq_add_succ, Nat.add_succ, blocksFrom, ih, blocksFrom, List.cons_append]
    have : first + 1 + (m : Int) = first + ((m + 1 : Nat) : Int) := by omega
    rw [this]

theorem blocksBetween_split (first middle last : Int) (h₁ : first ≤ middle + 1) (h₂ : middle ≤ last) :
    blocksBetween first last = blocksBetween first middle ++ blocksBetween (middle + 1) last := by
  have hcount : (last + 1 - first).toNat =
      (middle + 1 - first).toNat + (last + 1 - (middle + 1)).toNat := by omega
  have hnext : first + ((middle + 1 - first).toNat : Int) = middle + 1 := by omega
  simp only [blocksBetween]
  rw [hcount, blocksFrom_add, hnext]

/-- **The batches tile the range.** -/
theorem batches_tile {size : Nat} (hs : 0 < size) (first last : Int) :
    (batches size first last).flatMap (fun p => blocksBetween p.1 p.2) = blocksBetween first last := by
  fun_induction batches size first last with
  | case1 first h ih =>
    rw [List.flatMap_cons, ih]
    by_cases hcut : first + size - 1 ≤ last
    · rw [Int.min_eq_left hcut, blocksBetween_split first (first + size - 1) last (by omega) hcut]
      congr 2
      omega
    · rw [Int.min_eq_right (by omega)]
      have hnone : blocksBetween (first + size) last = [] := by
        simp [blocksBetween, show (last + 1 - (first + size)).toNat = 0 by omega, blocksFrom]
      rw [hnone, List.append_nil]
  | case2 first h =>
    have : (last + 1 - first).toNat = 0 := by omega
    simp [blocksBetween, this, blocksFrom]

theorem mem_batches {size : Nat} {first last : Int} {p : Int × Int} (hp : p ∈ batches size first last) :
    first ≤ p.1 ∧ p.1 ≤ p.2 ∧ p.2 ≤ last := by
  fun_induction batches size first last with
  | case1 first h ih =>
    rcases List.mem_cons.mp hp with rfl | hp
    · exact ⟨by omega, by dsimp only; omega, Int.min_le_right _ _⟩
    · have := ih hp
      omega
  | case2 => simp at hp

/-! ## Block numbers and results -/

theorem forall₂_map_eq {g : α → β} {xs : List α} {ys : List β} :
    List.Forall₂ (fun x y => y = g x) xs ys ↔ ys = xs.map g := by
  rw [← List.forall₂_eq_eq_eq, List.forall₂_map_right_iff]
  exact ⟨.flip, .flip⟩

theorem forall₂_trans {R : α → β → Prop} {S : β → γ → Prop} {T : α → γ → Prop}
    (h : ∀ x y z, R x y → S y z → T x z) {xs : List α} {ys : List β} {zs : List γ} (hr : List.Forall₂ R xs ys)
    (hs : List.Forall₂ S ys zs) : List.Forall₂ T xs zs := by
  induction hr generalizing zs with
  | nil =>
    cases hs
    exact .nil
  | cons hxy _ ih =>
    cases hs with
    | cons hyz hrest => exact .cons (h _ _ _ hxy hyz) (ih hrest)

variable {R : Int → BlockResult → Prop}

theorem lookup_forall₂ {ns : List Int} {done : List (Int × BlockResult)}
    (h : List.Forall₂ (fun n p => p.1 = n ∧ R n p.2) ns done) {n : Int} (hn : n ∈ ns) :
    ∃ r, done.lookup n = some r ∧ R n r := by
  induction h with
  | nil => simp at hn
  | @cons m p ns done hmp _ ih =>
    obtain ⟨k, r⟩ := p
    obtain ⟨rfl, hr⟩ := hmp
    by_cases hk : n = k
    · subst hk
      exact ⟨r, by simp, hr⟩
    · obtain ⟨r', hl, hr'⟩ := ih (by simpa [hk] using hn)
      exact ⟨r', by simp [List.lookup_cons, show (n == k) = false by simpa using hk, hl], hr'⟩

theorem forall₂_filterMap {f : Int → Option BlockResult} :
    ∀ {ns : List Int}, (∀ n ∈ ns, ∃ r, f n = some r ∧ R n r) → List.Forall₂ R ns (ns.filterMap f)
  | [], _ => .nil
  | n :: ns, h => by
    obtain ⟨r, hf, hr⟩ := h n (by simp)
    rw [List.filterMap_cons, hf]
    exact .cons hr (forall₂_filterMap fun m hm => h m (by simp [hm]))

/-- **The results are in block order**, whatever order the workers took the blocks in. -/
theorem inBlockOrder_forall₂ {blocks ns : List Int} {done : List (Int × BlockResult)}
    (hp : ns.Perm blocks) (h : List.Forall₂ (fun n p => p.1 = n ∧ R n p.2) ns done) :
    List.Forall₂ R blocks (inBlockOrder blocks done) :=
  forall₂_filterMap fun _ hn => lookup_forall₂ h (hp.mem_iff.mpr hn)

end AssertionReplay.Fetcher
