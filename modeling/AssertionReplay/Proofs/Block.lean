/-
The steps of fetching one block.

A block that cannot be read, or that is not there, has a result that is
marked; what is done with one that was read is `matchContent`. Nothing in it
can fail (`fetchBlock_ends_any`).
-/
import AssertionReplay.Fetch.Block
import AssertionReplay.Proofs.Endpoint

namespace AssertionReplay

open Text

namespace Fetcher

variable {o : Outside} {f : Fetcher} {s : Strategy} {Q : Fault → Journal → Prop}

theorem innerCalls_ends_any (n : Int) (transactions : List Json) :
    Act.Ends o (f.innerCalls s n transactions) (fun _ => True) Q := by
  unfold innerCalls
  refine .bind .attempt_any fun outcome _ => ?_
  cases outcome with
  | error e => exact .after_logWritten (.pure trivial)
  | ok hashes => exact .pure trivial

/-- **Direct calls are added one by one**: what stays as the record of one is added holds of all that are found. -/
theorem directCalls_invariant {I : OrderedMap Record → Prop} {target : String} {n : Int} {transactions : List Json}
    (hinsert : ∀ m, ∀ t ∈ transactions, ∀ recipient, Field.member t "to" = .ok recipient →
      Address.same recipient (.str target) = .ok true →
      ∀ r, Record.ofTransaction t (some (.int n)) = .ok r → I m → I (m.insert r.hash r))
    {found m : OrderedMap Record} (hfound : I found) (h : directCalls target n found transactions = .ok m) : I m := by
  induction transactions generalizing found with
  | nil =>
    cases h
    exact hfound
  | cons transaction rest ih =>
    have hrest := fun m t ht => hinsert m t (List.mem_cons_of_mem _ ht)
    obtain ⟨recipient, hto, h⟩ := bind_eq_ok_iff.mp h
    obtain ⟨direct, hdirect, h⟩ := bind_eq_ok_iff.mp h
    cases direct with
    | true =>
      obtain ⟨r, hr, h⟩ := bind_eq_ok_iff.mp h
      exact ih hrest (hinsert _ _ List.mem_cons_self recipient hto hdirect r hr hfound) h
    | false => exact ih hrest hfound h

/-- **Inner calls are added one by one**: what stays as a record is added under a new name holds of the result. -/
theorem addInner_invariant {I : OrderedMap Record → Prop} {n : Int} {inner : List (Text × Json)}
    (hinsert : ∀ m, ∀ p ∈ inner, m.contains p.1 = false →
      ∀ r, Record.ofTransaction p.2 (some (.int n)) = .ok r → I m → I (m.insert p.1 r))
    {found : OrderedMap Record} (hfound : I found) : Act.Ends o (addInner n found inner) I Q := by
  induction inner generalizing found with
  | nil => exact .pure hfound
  | cons p rest ih =>
    have hrest := fun m p hp => hinsert m p (List.mem_cons_of_mem _ hp)
    have hfirst := hinsert found p List.mem_cons_self
    obtain ⟨hash, transaction⟩ := p
    unfold addInner
    cases hin : found.contains hash with
    | true =>
      rw [if_pos rfl]
      exact ih hrest hfound
    | false =>
      rw [if_neg (by simp)]
      split
      · rename_i r hr
        exact ih hrest (hfirst hin r hr hfound)
      · exact .after_logWritten (ih hrest hfound)

/-! ## Reading a block -/

theorem transactionsOf_arr {items : List Json} (h : ∀ t ∈ items, isObject t = true) :
    transactionsOf (.arr items) = .ok items := by
  rw [transactionsOf, List.filter_eq_self.mpr h]

theorem readBlock_ok {target : String} {asked n : Int} (hn : 0 ≤ n) {v : Json} {items : List Json}
    {direct : OrderedMap Record} (hnumber : Field.member v "number" = .ok (.str (hexNumeral n)))
    (hitems : Field.member v "transactions" = .ok (.arr items)) (hobj : ∀ t ∈ items, isObject t = true)
    (hdirect : directCalls target n [] items = .ok direct) :
    readBlock target asked v = .ok ⟨n, items, direct⟩ := by
  have hgiven : (Json.str (hexNumeral n)).isGiven = true := by
    simp [Json.isGiven, Field.hexNumeral_isEmpty hn]
  simp only [readBlock, hnumber, bind, Except.bind, hgiven, if_true, Field.hexInt_hexNumeral hn, hitems,
    transactionsOf_arr hobj, hdirect, pure, Except.pure]

/-- What was read of a block has its direct calls. -/
def Content.Matched (target : String) (c : Content) : Prop :=
  directCalls target c.block [] c.transactions = .ok c.direct

theorem readBlock_matched {target : String} {asked : Int} {v : Json} {c : Content}
    (h : readBlock target asked v = .ok c) : c.Matched target := by
  obtain ⟨number, -, h⟩ := bind_eq_ok_iff.mp h
  dsimp only at h
  split at h
  all_goals
    obtain ⟨n, -, h⟩ := bind_eq_ok_iff.mp h
    obtain ⟨items, -, h⟩ := bind_eq_ok_iff.mp h
    obtain ⟨transactions, -, h⟩ := bind_eq_ok_iff.mp h
    obtain ⟨direct, hdirect, h⟩ := bind_eq_ok_iff.mp h
    cases h
    exact hdirect

/-- The parameters of a request for a block with its transactions. -/
def blockParams (n : Int) : Json := .arr [.str (hexNumeral n), .bool true]

theorem contentOf_ensures {n : Int} {v : Json} {c : Content} (hgiven : v.isGiven = true)
    (hgets : f.client.Gets o "eth_getBlockByNumber" (blockParams n) v)
    (hread : readBlock f.target n v = .ok c) : Act.Ensures o (f.contentOf n) (· = some c) := by
  refine (Act.Ends.bind (P := (· = v)) ?_ fun v' hv' => ?_).ensures
  · exact hgets.ends
  · subst hv'
    rw [hgiven]
    simp only [Bool.not_true, Bool.false_eq_true, if_false, hread]
    exact .pure rfl

theorem contentOf_matched (n : Int) :
    Act.Yields o (f.contentOf n) fun c? => ∀ c, c? = some c → c.Matched f.target := by
  unfold contentOf
  refine .bind .any fun v _ => ?_
  split
  · exact .after_log (.pure (by simp))
  · refine .bind (P := fun c => c.Matched f.target) (Act.Yields.lift fun c hc => readBlock_matched hc)
      fun c hc => .pure ?_
    intro c' heq
    cases heq
    exact hc

theorem contentOf_misses {n : Int} (h : f.client.Misses o "eth_getBlockByNumber" (blockParams n)) :
    Act.Ends o (f.contentOf n) (· = none) fun e _ => e.isOwn = true := by
  refine .bind h fun v hv => ?_
  rw [hv]
  exact .after_log (.pure rfl)

/-! ## Matching it -/

/-- What is done with a block that was read. -/
def matchContent (f : Fetcher) (s : Strategy) (n : Int) (c : Content) : Act BlockResult := do
  let inner ← f.innerCalls s c.block c.transactions
  let matched ← addInner c.block c.direct inner
  if !matched.isEmpty then
    Act.logWritten .info none do
      return "  Block " ++ (← Field.numeral (.int c.block)) ++ ": found " ++
        decimal matched.length ++ " transactions"
  return { block := n, ok := true, transactions := c.transactions, matched }

theorem fetchBlock_of_content (s : Strategy) {n : Int} {past j₁ : Journal} {c : Content}
    (h : f.contentOf n o past = (.ok (some c), j₁)) :
    f.fetchBlock s n o past = f.matchContent s n c o j₁ := by
  unfold fetchBlock
  rw [Act.bind_apply_of_ok (Act.attempt_apply h)]
  rfl

/-- A block that cannot be read is a result that is marked, never a fault. -/
theorem fetchBlock_of_no_content (n : Int) (past : Journal)
    (h : ∀ c, (f.contentOf n o past).1 ≠ .ok (some c)) :
    (f.fetchBlock s n o past).1 = .ok (.failed n) := by
  rcases hread : f.contentOf n o past with ⟨e | _ | c, j₁⟩
  · unfold fetchBlock
    rw [Act.bind_apply_of_ok (Act.attempt_apply hread)]
    rfl
  · unfold fetchBlock
    rw [Act.bind_apply_of_ok (Act.attempt_apply hread)]
    rfl
  · exact absurd (by rw [hread]) (h c)

theorem fetchBlock_of_misses {n : Int} (h : f.client.Misses o "eth_getBlockByNumber" (blockParams n))
    (past : Journal) : (f.fetchBlock s n o past).1 = .ok (.failed n) := by
  refine fetchBlock_of_no_content n past fun c hc => ?_
  rcases (contentOf_misses h).cases past with ⟨_, _, h, rfl⟩ | ⟨_, _, h, _⟩ <;> rw [h] at hc <;> cases hc

theorem matchContent_ends (n : Int) (c : Content) :
    Act.Ends o (f.matchContent s n c) (fun r => n = r.block) Q := by
  unfold matchContent
  refine .bind (innerCalls_ends_any _ _) fun inner _ => ?_
  refine .bind (addInner_invariant (I := fun _ => True) (fun _ _ _ _ _ _ _ => trivial) trivial) fun matched _ => ?_
  split
  · exact .after_logWritten (.pure rfl)
  · exact .pure rfl

/-- **Every block has its result**, whatever is answered about it. -/
theorem fetchBlock_ends_any (n : Int) : Act.Ends o (f.fetchBlock s n) (fun r => n = r.block) Q := by
  refine .of_cases fun past => ?_
  by_cases hread : ∃ c j₁, f.contentOf n o past = (.ok (some c), j₁)
  · obtain ⟨c, j₁, hc⟩ := hread
    rw [fetchBlock_of_content s hc]
    exact (matchContent_ends n c).cases j₁
  · have hfailed : (f.fetchBlock s n o past).1 = .ok (.failed n) :=
      fetchBlock_of_no_content n past fun c hc => hread ⟨c, (f.contentOf n o past).2, Prod.ext hc rfl⟩
    exact .inl ⟨_, _, Prod.ext hfailed rfl, rfl⟩

end Fetcher
end AssertionReplay
