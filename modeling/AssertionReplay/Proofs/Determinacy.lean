/-
Actions whose end is settled by the replies of the endpoint.

If an endpoint replies to the same request always in the same way, then what
is made of its replies is always the same as well: what was done before, the
clock and the workers have no say in it (`Act.Settled`). Only how long a pause
may be has, since a reply can ask for one that cannot be made. To be settled is
closed. The calls of an endpoint are settled so, and with them how each block
is fetched (`fetchBlock_settled`). What is read of a block, before anything is
traced, is settled by the replies to the requests for blocks
(`contentOf_settled`).
-/
import AssertionReplay.Proofs.Closure

namespace AssertionReplay

open Text

/-- To the requests of `asked`, the endpoint replies by a function of the request. -/
def Outside.RepliesBy (asked : Request → Prop) (answer : Request → Reply) (o : Outside) : Prop :=
  ∀ past request, asked request → o.reply past request = answer request

/-- The endpoint replies so to every request. -/
abbrev Outside.Told (answer : Request → Reply) : Outside → Prop := RepliesBy (fun _ => True) answer

/-- The endpoint replies so to these requests, and pauses are limited so. -/
structure Outside.Behaves (asked : Request → Prop) (answer : Request → Reply) (limit? : Option PauseLimit)
    (o : Outside) : Prop where
  replies : o.RepliesBy asked answer
  pauses : o.pauseLimit? = limit?

theorem Outside.RepliesBy.behaves {asked : Request → Prop} {answer : Request → Reply} {o : Outside}
    (h : o.RepliesBy asked answer) : o.Behaves asked answer o.pauseLimit? := ⟨h, rfl⟩

namespace Act

variable {K : Outside → Prop} {x : Act α}

/-- The action ends in the same way, with whatever outside of this kind and from every journal. -/
def Settled (K : Outside → Prop) (x : Act α) : Prop :=
  ∃ r, ∀ o, K o → ∀ j, (x o j).1 = r

theorem Settled.bind {f : α → Act β} (hx : Settled K x) (hf : ∀ a, Settled K (f a)) :
    Settled K (x >>= f) := by
  obtain ⟨r, hr⟩ := hx
  cases r with
  | error e =>
    refine ⟨.error e, fun o ho j => ?_⟩
    rw [bind_apply_of_error (Prod.ext (hr o ho j) rfl)]
  | ok a =>
    obtain ⟨r, hf⟩ := hf a
    refine ⟨r, fun o ho j => ?_⟩
    rw [bind_apply_of_ok (Prod.ext (hr o ho j) rfl)]
    exact hf o ho _

theorem Settled.attempt (h : Settled K x) : Settled K x.attempt := by
  obtain ⟨r, hr⟩ := h
  refine ⟨.ok r, fun o ho j => ?_⟩
  rw [attempt_apply (Prod.ext (hr o ho j) rfl)]

theorem Settled.attemptOwn (h : Settled K x) : Settled K x.attemptOwn := by
  obtain ⟨r, hr⟩ := h
  cases r with
  | ok a =>
    refine ⟨.ok (.ok a), fun o ho j => ?_⟩
    rw [attemptOwn_of_ok (Prod.ext (hr o ho j) rfl)]
  | error e =>
    refine ⟨if e.isOwn then .ok (.error e) else .error e, fun o ho j => ?_⟩
    rw [attemptOwn_of_error (Prod.ext (hr o ho j) rfl)]

theorem settled_closed (K : Outside → Prop) : Closed fun x => Settled K x where
  lift {_ r} := ⟨r, fun o _ j => by rw [lift_apply]⟩
  record _ := ⟨.ok (), fun _ _ _ => rfl⟩
  bind := Settled.bind
  attempt := Settled.attempt
  attemptOwn := Settled.attemptOwn

end Act

open Act

variable {asked : Request → Prop} {answer : Request → Reply} {limit? : Option PauseLimit}

theorem Act.sleep_settled (seconds : Binary64) :
    Settled (Outside.Behaves asked answer limit?) (Act.sleep seconds) := by
  refine ⟨if PauseLimit.allows limit? seconds then .ok () else .error .outOfRange, fun o ho j => ?_⟩
  rw [Act.sleep, ho.pauses]
  split <;> rfl

theorem Client.call_settled (c : Client) {method : Text} {params : Json}
    (h : asked ⟨method, params.orElse (.arr [])⟩) :
    Settled (Outside.Behaves asked answer limit?) (c.call method params) := by
  have hpost : Settled (Outside.Behaves asked answer limit?)
      (Act.post c.connection ⟨method, params.orElse (.arr [])⟩) := by
    refine ⟨.ok (answer ⟨method, params.orElse (.arr [])⟩), fun o ho j => ?_⟩
    rw [Act.post, ho.replies _ _ h]
  exact call_closed (settled_closed _) hpost sleep_settled

namespace Fetcher

/-- A request for a block. -/
def AsksBlock (request : Request) : Prop := request.method = "eth_getBlockByNumber"

theorem contentOf_settled (answer : Request → Reply) (limit? : Option PauseLimit) (f : Fetcher) (n : Int)
    (h : ∀ request, AsksBlock request → asked request) :
    Settled (Outside.Behaves asked answer limit?) (f.contentOf n) := by
  have hK := settled_closed (Outside.Behaves asked answer limit?)
  exact contentOf_closed hK hK.leads (Client.blockByNumber_closed hK (fun _ => f.client.call_settled (h _ rfl)) _ _)

/-- **How a block is fetched is settled by the replies.** -/
theorem fetchBlock_settled (answer : Request → Reply) (limit? : Option PauseLimit) (f : Fetcher) (s : Strategy)
    (n : Int) : Settled (Outside.Behaves (fun _ => True) answer limit?) (f.fetchBlock s n) := by
  have hK := settled_closed (Outside.Behaves (fun _ => True) answer limit?)
  have hcall : ∀ method params,
      Settled (Outside.Behaves (fun _ => True) answer limit?) (f.client.call method params) := fun _ _ =>
    f.client.call_settled trivial
  exact fetchBlock_closed hK hK.leads (Client.blockByNumber_closed hK (hcall _) _ _) fun method _ => hcall method

end Fetcher
end AssertionReplay
