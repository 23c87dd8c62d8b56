/-
The calls of a fetch.

A call posts its request once, and again after each wait; so the calls of a
journal are its posts but for those right after a wait (`Journal.calls`).
`Act.Makes` is a triple for actions that return: the calls that were made
satisfy a predicate together with the value. A block is asked for by one call
and then its transactions by the calls of the strategy
(`Fetcher.fetchBlock_leaves_calls`); a batch makes the calls of its blocks, in
the order that the workers take them, and after them those of its trace
(`Fetcher.fetchBatch_makes`).
-/
import AssertionReplay.Proofs.Backoff
import AssertionReplay.Proofs.Batches
import AssertionReplay.Proofs.JournalGrowth

namespace AssertionReplay

open Text

/-! ## Calls of a journal -/

namespace Journal

/-- The requests of the calls: those that were posted, but for those posted again after a wait. -/
def calls : Journal → List Request
  | .sleep _ :: .post _ _ :: j => calls j
  | .post _ r :: j => r :: calls j
  | _ :: j => calls j
  | [] => []

/-- The journal does not end in the middle of a call: what comes next makes its own calls. -/
def Whole (j : Journal) : Prop := ∀ k, calls (j ++ k) = j.calls ++ calls k

/-- The journal ends with no call, and its calls satisfy a predicate. -/
def Sends (L : List Request → Prop) (j : Journal) : Prop := j.Whole ∧ L j.calls

/-- The journal has no calls. -/
abbrev Silent : Journal → Prop := Sends (· = [])

variable {L L' L'' : List Request → Prop} {j k : Journal}

theorem Sends.imp (h : j.Sends L) (hL : ∀ cs, L cs → L' cs) : j.Sends L' := ⟨h.1, hL _ h.2⟩

theorem Sends.append (hj : j.Sends L) (hk : k.Sends L') (h : ∀ cs ds, L cs → L' ds → L'' (cs ++ ds)) :
    (j ++ k).Sends L'' := by
  refine ⟨fun more => ?_, ?_⟩
  · rw [List.append_assoc, hj.1, hk.1, hj.1, List.append_assoc]
  · rw [hj.1]
    exact h _ _ hj.2 hk.2

theorem sends_nil (h : L []) : Sends L [] := ⟨fun _ => rfl, h⟩

theorem sends_quiet {e : Event} (he : e.isQuiet = true) (h : L []) : Sends L [e] := by
  cases e with
  | log entry => exact ⟨fun _ => rfl, h⟩
  | clock => exact ⟨fun _ => rfl, h⟩
  | drew text => exact ⟨fun _ => rfl, h⟩
  | _ => cases he

/-- A property of the calls, if what is made of parts that have it has it too. -/
theorem trail_sends (hnil : L []) (happend : ∀ cs ds, L cs → L ds → L (cs ++ ds)) : Trail (Sends L) where
  nil := sends_nil hnil
  append hj hk := hj.append hk happend
  quiet he := sends_quiet he hnil

theorem trail_silent : Trail Silent := trail_sends rfl fun _ _ hcs hds => by rw [hcs, hds, List.append_nil]

theorem trail_methods (M : Text → Prop) : Trail (Sends fun cs => ∀ r ∈ cs, M r.method) :=
  trail_sends (by simp) fun _ _ hcs hds r hr => (List.mem_append.mp hr).elim (hcs r) (hds r)

theorem calls_sleep_rounds (connection : Connection) (request : Request) (waits : List Binary64) (delay : Binary64)
    (k : Journal) : calls (.sleep delay :: (rounds connection request waits ++ .post connection request :: k)) =
      calls k := by
  induction waits generalizing delay with
  | nil => rfl
  | cons next waits ih => exact ih next

/-- However many rounds it takes, it is one call. -/
theorem calls_rounds (connection : Connection) (request : Request) (waits : List Binary64) (k : Journal) :
    calls (rounds connection request waits ++ .post connection request :: k) = request :: calls k := by
  cases waits with
  | nil => rfl
  | cons delay waits => exact congrArg (request :: ·) (calls_sleep_rounds connection request waits delay k)

theorem sends_rounds (connection : Connection) (request : Request) (waits : List Binary64) :
    Sends (· = [request]) (rounds connection request waits ++ [.post connection request]) := by
  have hone := calls_rounds connection request waits []
  refine ⟨fun k => ?_, hone⟩
  rw [hone, List.append_assoc]
  exact calls_rounds connection request waits k

end Journal

/-! ## Actions -/

namespace Act

open Journal

/-- If the action returns, the calls that it made satisfy the predicate, together with its value. -/
def Makes (L : α → List Request → Prop) (x : Act α) : Prop :=
  ∀ o j a j', x o j = (.ok a, j') → ∃ more, j' = j ++ more ∧ more.Sends (L a)

variable {L : α → List Request → Prop} {L' : β → List Request → Prop} {x : Act α}

theorem Leaves.makes {L : List Request → Prop} (hx : Leaves (Sends L) x) : Makes (fun _ => L) x := by
  intro o j a j' h
  obtain ⟨more, hmore, hsends⟩ := hx o j
  exact ⟨more, by rw [← hmore, h], hsends⟩

theorem Makes.imp {L' : α → List Request → Prop} (hx : Makes L x) (h : ∀ a cs, L a cs → L' a cs) : Makes L' x := by
  intro o j a j' hrun
  obtain ⟨more, hmore, hsends⟩ := hx o j a j' hrun
  exact ⟨more, hmore, hsends.imp (h a)⟩

theorem Makes.pure {a : α} (h : L a []) : Makes L (Pure.pure a : Act α) := by
  intro o j b j' hrun
  cases hrun
  exact ⟨[], (List.append_nil j).symm, sends_nil h⟩

theorem Makes.bind {f : α → Act β} (hx : Makes L x)
    (hf : ∀ a cs, L a cs → Makes (fun b ds => L' b (cs ++ ds)) (f a)) : Makes L' (x >>= f) := by
  intro o j b j' hrun
  obtain ⟨a, j₁, hfirst, hrest⟩ := bind_apply_eq_ok_iff.mp hrun
  obtain ⟨more, rfl, hmore⟩ := hx o j a j₁ hfirst
  obtain ⟨rest, rfl, hsends⟩ := hf a more.calls hmore.2 o _ b j' hrest
  have hsame : more.Sends (· = more.calls) := ⟨hmore.1, rfl⟩
  exact ⟨more ++ rest, List.append_assoc _ _ _, hsame.append hsends fun cs ds hcs hds => by rwa [hcs]⟩

theorem Makes.after_silent {f : α → Act β} (hx : Leaves Silent x) (hf : ∀ a, Makes L' (f a)) :
    Makes L' (x >>= f) := by
  refine hx.makes.bind fun a cs hcs => ?_
  subst hcs
  exact hf a

theorem Makes.then_silent {L : List Request → Prop} {f : α → Act β} (hx : Makes (fun _ => L) x)
    (hf : ∀ a, Leaves Silent (f a)) : Makes (fun _ => L) (x >>= f) := by
  refine hx.bind fun a cs hcs => (hf a).makes.imp fun _ ds hds => ?_
  rw [hds, List.append_nil]
  exact hcs

end Act

/-- The calls are made of parts, one for each element and in their order. -/
def Parts (R : α → List Request → Prop) (xs : List α) (cs : List Request) : Prop :=
  ∃ parts, List.Forall₂ R xs parts ∧ cs = parts.flatten

namespace Parts

variable {R : α → List Request → Prop}

theorem nil : Parts R [] [] := ⟨[], .nil, rfl⟩

theorem cons {x : α} {xs : List α} {cs ds : List Request} (hx : R x cs) (h : Parts R xs ds) :
    Parts R (x :: xs) (cs ++ ds) := by
  obtain ⟨parts, hparts, rfl⟩ := h
  exact ⟨cs :: parts, .cons hx hparts, rfl⟩

theorem relate {S : List Request → List β → Prop} (hnil : S [] [])
    (happend : ∀ cs ds us vs, S cs us → S ds vs → S (cs ++ ds) (us ++ vs)) {g : α → List β}
    (h : ∀ x cs, R x cs → S cs (g x)) {xs : List α} {cs : List Request} (hparts : Parts R xs cs) :
    S cs (xs.flatMap g) := by
  obtain ⟨parts, hparts, rfl⟩ := hparts
  induction hparts with
  | nil => exact hnil
  | cons hx _ ih => exact happend _ _ _ _ (h _ _ hx) ih

/-- The calls of some kind that are known of each part. -/
theorem filter_eq {keep : Request → Bool} {g : α → List Request} (h : ∀ x cs, R x cs → cs.filter keep = g x)
    {xs : List α} {cs : List Request} (hparts : Parts R xs cs) : cs.filter keep = xs.flatMap g :=
  hparts.relate (S := fun cs us => cs.filter keep = us) rfl
    (fun cs ds us vs hcs hds => by rw [List.filter_append, hcs, hds]) h

theorem filter_perm {keep : Request → Bool} {g : α → List Request} (h : ∀ x cs, R x cs → (cs.filter keep).Perm (g x))
    {xs : List α} {cs : List Request} (hparts : Parts R xs cs) : (cs.filter keep).Perm (xs.flatMap g) :=
  hparts.relate (S := fun cs us => (cs.filter keep).Perm us) (List.Perm.refl _)
    (fun cs ds us vs hcs hds => by rw [List.filter_append]; exact hcs.append hds) h

end Parts

namespace Act

theorem Makes.mapEach {f : α → Act β} {R : α → List Request → Prop} (h : ∀ x, Makes (fun _ => R x) (f x))
    (xs : List α) : Makes (fun _ => Parts R xs) (Act.mapEach xs f) := by
  induction xs with
  | nil => exact .pure .nil
  | cons x xs ih =>
    refine Makes.bind (h x) fun y cs hcs => Makes.bind ih fun ys ds hds => .pure ?_
    rw [List.append_nil]
    exact .cons hcs hds

end Act

open Act Journal

/-! ## Blocks -/

namespace Client

variable {c : Client} {retries : Nat}

/-- After the last post, nothing is called. -/
theorem Closes.silent {o : Outside} {past : List Request} {connection : Connection} {request : Request}
    {allowed rounds : Nat} {result : Except Fault Json} {after : Journal}
    (h : Closes o past connection request allowed rounds result after) : after.Silent := by
  cases h with
  | settled | stumbled => exact sends_nil rfl
  | exceeded => exact sends_quiet rfl rfl

/-- **A call is one call**, however often it is posted. -/
theorem call_leaves (hretries : c.repetitions = .ok retries) (method : Text) (params : Json) :
    Leaves (Sends (· = [requestOf method params])) (c.call method params) := by
  intro o j
  obtain ⟨waits, result, after, -, -, hcloses, hrun⟩ :=
    exchange_runs c.connection (requestOf method params) retries o j
  rw [call_eq_exchange hretries, hrun]
  refine ⟨_, List.append_assoc _ _ _, ?_⟩
  rw [List.append_cons]
  exact (sends_rounds _ _ _).append hcloses.silent fun _ _ hcs hds => by rw [hcs, hds, List.append_nil]

theorem call_leaves_method (hretries : c.repetitions = .ok retries) {M : Text → Prop} {method : Text} (h : M method) :
    c.CallsLeave (Sends fun cs => ∀ r ∈ cs, M r.method) method := fun params =>
  (call_leaves hretries method params).imp fun _ hj => hj.imp fun cs hcs r hr => by
    rw [hcs, List.mem_singleton] at hr
    rw [hr]
    exact h

end Client

namespace Fetcher

variable {f : Fetcher} {s : Strategy} {retries : Nat} (hretries : f.client.repetitions = .ok retries)

/-- What asks for a block with its transactions. -/
def blockRequest (n : Int) : Request :=
  ⟨"eth_getBlockByNumber", .arr [.str (hexNumeral n), .bool true]⟩

/-- What asks for the traces of the calls of a target in a range of blocks. -/
def rangeRequest (target : String) (range : Int × Int) : Request :=
  ⟨"trace_filter", .arr [.obj [("fromBlock", .str (hexNumeral range.1)), ("toBlock", .str (hexNumeral range.2)),
    ("toAddress", .arr [.str target])]]⟩

/-- A block is asked for, and then what its strategy asks for. -/
def BlockCalls (s : Strategy) (n : Int) (cs : List Request) : Prop :=
  ∃ others, cs = blockRequest n :: others ∧ ∀ r ∈ others, r.method ∈ s.blockMethod?

/-- A range is traced, and then transactions are asked for by their hashes. -/
def RangeCalls (target : String) (range : Int × Int) (cs : List Request) : Prop :=
  ∃ lookups, cs = rangeRequest target range :: lookups ∧ ∀ r ∈ lookups, r.method = "eth_getTransactionByHash"

/-- The blocks of a range are asked for in some order, and then it is traced if it is to be. -/
def BatchCalls (target : String) (s : Strategy) (range : Int × Int) (cs : List Request) : Prop :=
  ∃ ns blocks traced, cs = blocks ++ traced ∧ ns.Perm (blocksBetween range.1 range.2) ∧
    Parts (BlockCalls s) ns blocks ∧ (s = .traceFilter → RangeCalls target range traced) ∧
    (s ≠ .traceFilter → traced = [])

section

include hretries

/-- **A block is asked for once**, whatever becomes of it. -/
theorem fetchBlock_leaves_calls (n : Int) : Leaves (Sends (BlockCalls s n)) (f.fetchBlock s n) := by
  have hread : Leaves (Sends (· = [blockRequest n])) (f.client.blockByNumber (.int n) (.bool true)) :=
    Client.call_leaves hretries "eth_getBlockByNumber" (.arr [.str (hexNumeral n), .bool true])
  have hF := trail_methods (· ∈ s.blockMethod?)
  refine (fetchBlock_closed hF.closed.toClosed hF.leads (hF.first hread) fun method hmethod =>
    Client.call_leaves_method hretries hmethod).imp fun j hj => ?_
  obtain ⟨first, rest, rfl, hfirst, hrest⟩ := hj
  exact hfirst.append hrest fun cs others hcs hothers => ⟨others, by rw [hcs]; rfl, hothers⟩

/-- **A trace of a range is asked for once**, whatever becomes of it. -/
theorem mergeTrace_leaves_calls (results : List BlockResult) (first last : Int) :
    Leaves (Sends (RangeCalls f.target (first, last))) (f.mergeTrace .traceFilter results first last) := by
  have hread : Leaves (Sends (· = [rangeRequest f.target (first, last)]))
      (f.client.traceFilter (.int first) (.int last) (.str f.target)) := by
    refine (Client.call_leaves hretries "trace_filter" _).then (fun _ => trail_silent.closed.pure) (fun _ h => h) ?_
    exact fun j k hj hk => hj.append hk fun cs ds hcs hds => by rw [hcs, hds]; rfl
  have hlookup : f.client.CallsLeave (Sends fun cs => ∀ r ∈ cs, r.method = "eth_getTransactionByHash")
      "eth_getTransactionByHash" := Client.call_leaves_method (M := (· = "eth_getTransactionByHash")) hretries rfl
  have hF := trail_methods (· = "eth_getTransactionByHash")
  refine (mergeTrace_closed hF.closed.toClosed hF.leads (hF.first hread) hlookup).imp fun j hj => ?_
  obtain ⟨first, rest, rfl, hfirst, hrest⟩ := hj
  exact hfirst.append hrest fun cs lookups hcs hlookups => ⟨lookups, by rw [hcs]; rfl, hlookups⟩

theorem fetchBlocks_makes (blocks : List Int) : Makes (fun _ cs => ∃ ns, ns.Perm blocks ∧ Parts (BlockCalls s) ns cs)
    (f.fetchBlocks s blocks) := by
  have hblock : ∀ n, Makes (fun _ => BlockCalls s n) (do return (n, ← f.fetchBlock s n)) := fun n =>
    (fetchBlock_leaves_calls hretries n).makes.then_silent fun _ => trail_silent.closed.pure
  unfold fetchBlocks
  refine .after_silent trail_silent.closed.outside fun o => ?_
  refine Makes.then_silent ((Makes.mapEach hblock _).imp fun _ cs hcs => ?_) fun _ => trail_silent.closed.pure
  exact ⟨_, o.schedule.perm blocks, hcs⟩

/-- **A batch makes the calls of its blocks, and then those of its trace.** -/
theorem fetchBatch_makes (range : Int × Int) :
    Makes (fun _ => BatchCalls f.target s range) (f.fetchBatch s range.1 range.2) := by
  unfold fetchBatch
  refine (fetchBlocks_makes hretries _).bind fun results blocks hblocks => ?_
  obtain ⟨ns, hperm, hparts⟩ := hblocks
  split
  · rename_i htraced
    have hs : s = .traceFilter := beq_iff_eq.mp htraced
    subst hs
    refine (mergeTrace_leaves_calls hretries results range.1 range.2).makes.imp fun _ traced hcalls => ?_
    exact ⟨ns, blocks, traced, rfl, hperm, hparts, fun _ => hcalls, fun h => absurd rfl h⟩
  · rename_i htraced
    have hs : s ≠ .traceFilter := by simpa using htraced
    exact .pure ⟨ns, blocks, [], rfl, hperm, hparts, fun h => absurd h hs, fun _ => rfl⟩

end

end Fetcher
end AssertionReplay
