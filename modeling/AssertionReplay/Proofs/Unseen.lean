/-
What a fetch does not do.

A fetch makes requests, waits, reads the clock, writes to the log and draws
its bar. It prints nothing on the standard output, and it calls no assertion
host (`Fetcher.fetch_unseen`): whoever reads the one or answers the other
cannot tell that it took place.
-/
import AssertionReplay.Proofs.HostCalls
import AssertionReplay.Proofs.JournalGrowth

namespace AssertionReplay

theorem Journal.printed_append (j k : Journal) : printed (j ++ k) = j.printed ++ k.printed := by
  rw [printed, List.filterMap_append]
  exact congrArg Text.mk List.flatMap_append

/-- Neither the reader of the standard output nor the assertion host gets to know of the event. -/
def Event.isUnseen : Event → Bool
  | .printed _ | .host _ => false
  | _ => true

theorem Journal.printed_of_unseen {j : Journal} (h : ∀ e ∈ j, e.isUnseen = true) : j.printed = ⟨[]⟩ := by
  refine congrArg Text.join (List.filterMap_eq_nil_iff.mpr fun e he => ?_)
  cases e with
  | printed text => cases h _ he
  | _ => rfl

theorem Journal.hostCalls_of_unseen {j : Journal} (h : ∀ e ∈ j, e.isUnseen = true) : j.hostCalls = [] := by
  refine List.filterMap_eq_nil_iff.mpr fun e he => ?_
  cases e with
  | host call => cases h _ he
  | _ => rfl

namespace Act

/-- Whatever the action adds to a journal is unseen. -/
def Unseen (x : Act α) : Prop :=
  ∀ o j, ∃ more : Journal, (x o j).2 = j ++ more ∧ ∀ e ∈ more, e.isUnseen = true

variable {x : Act α}

theorem trail_unseen : Trail fun more : Journal => ∀ e ∈ more, e.isUnseen = true where
  nil := by simp
  append hj hk := fun e he => (List.mem_append.mp he).elim (hj e) (hk e)
  quiet {e} h := by
    rw [List.forall_mem_singleton]
    cases e with
    | printed text => cases h
    | host call => cases h
    | _ => rfl

theorem Unseen.lift {r : Except Fault α} : Unseen (liftM r : Act α) := trail_unseen.closed.lift

theorem Unseen.pure {a : α} : Unseen (Pure.pure a : Act α) := trail_unseen.closed.pure

theorem Unseen.bind {f : α → Act β} (hx : Unseen x) (hf : ∀ a, Unseen (f a)) : Unseen (x >>= f) :=
  trail_unseen.closed.bind hx hf

/-! ## What is seen -/

theorem Unseen.hostCalls (hx : Unseen x) (o : Outside) (j : Journal) : (x o j).2.hostCalls = j.hostCalls := by
  obtain ⟨more, hmore, hunseen⟩ := hx o j
  rw [hmore, Journal.hostCalls_append, Journal.hostCalls_of_unseen hunseen, List.append_nil]

end Act

open Act

/-! ## Calls, selection and fetch -/

theorem Client.call_unseen (c : Client) (method : Text) (params : Json) : Unseen (c.call method params) :=
  call_leaves_posts trail_unseen (by simp [Event.isUnseen]) (by simp [Event.isUnseen])

theorem Probe.ranked_unseen (c : Client) (block target : Json) : ∀ probe ∈ ranked c block target, Unseen probe :=
  ranked_closed trail_unseen.closed.toClosed c.call_unseen block target

theorem Probe.select_unseen (c : Client) (block target : Json) : Unseen (select c block target) :=
  select_closed trail_unseen.closed.toClosed c.call_unseen block target

/-- **A fetch is unseen**, whatever it ends with. -/
theorem Fetcher.fetch_unseen (f : Fetcher) (first last : Json) : Unseen (f.fetch first last) :=
  fetch_closed trail_unseen.closed f.client.call_unseen first last

end AssertionReplay
