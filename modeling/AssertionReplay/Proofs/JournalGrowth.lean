/-
What a fetch leaves in the journal.

Besides its calls, a fetch leaves lines of the log, readings of the clock and
the drawings of its bar. A property of what is left that allows these, and
that the whole has if its parts have it, is a `Trail`. To leave what has such
a property is closed (`Trail.closed`), so each function of the fetch does if
its calls do, whatever it ends with.
-/
import AssertionReplay.Proofs.Closure

namespace AssertionReplay

/-- The property allows quiet events, and the whole has it if its parts do. -/
structure Trail (F : Journal → Prop) : Prop where
  nil : F []
  append {j k : Journal} : F j → F k → F (j ++ k)
  quiet {e : Event} : e.isQuiet = true → F [e]

namespace Act

/-- What the action adds to a journal has the property, also if the action fails. -/
def Leaves (F : Journal → Prop) (x : Act α) : Prop :=
  ∀ o j, ∃ more : Journal, (x o j).2 = j ++ more ∧ F more

variable {F G H : Journal → Prop} {x : Act α}

theorem Leaves.imp (hx : Leaves F x) (h : ∀ j, F j → G j) : Leaves G x := by
  intro o j
  obtain ⟨more, hmore, hleft⟩ := hx o j
  exact ⟨more, hmore, h more hleft⟩

theorem Leaves.then {f : α → Act β} (hx : Leaves F x) (hf : ∀ a, Leaves G (f a)) (hstop : ∀ j, F j → H j)
    (hgo : ∀ j k, F j → G k → H (j ++ k)) : Leaves H (x >>= f) := by
  intro o j
  obtain ⟨more, hmore, hleft⟩ := hx o j
  rcases h : x o j with ⟨e | a, j₁⟩
  · exact ⟨more, by rw [bind_apply_of_error h, ← hmore, h], hstop more hleft⟩
  · obtain ⟨rest, hrest, hleft'⟩ := hf a o j₁
    refine ⟨more ++ rest, ?_, hgo more rest hleft hleft'⟩
    rw [bind_apply_of_ok h, hrest, ← List.append_assoc, ← hmore, h]

theorem Leaves.attempt (hx : Leaves F x) : Leaves F x.attempt := hx

theorem Leaves.attemptOwn (hx : Leaves F x) : Leaves F x.attemptOwn := by
  intro o j
  obtain ⟨more, hmore, hleft⟩ := hx o j
  exact ⟨more, by rw [attemptOwn_snd, hmore], hleft⟩

end Act

/-- First a part that has the one property, and then a part that has the other. -/
def Journal.After (F G : Journal → Prop) (j : Journal) : Prop :=
  ∃ first rest, j = first ++ rest ∧ F first ∧ G rest

namespace Trail

open Act Journal

variable {F G : Journal → Prop} {x : Act α} (hF : Trail F)

include hF

theorem same (h : ∀ o j, (x o j).2 = j) : Leaves F x :=
  fun o j => ⟨[], by rw [h, List.append_nil], hF.nil⟩

theorem closed : ClosedOutside fun x => Leaves F x where
  lift := hF.same fun o j => by rw [lift_apply]
  record {e} h := fun _ _ => ⟨[e], rfl, hF.quiet h⟩
  bind hx hf := hx.then hf (fun _ h => h) fun _ _ => hF.append
  attempt := Leaves.attempt
  attemptOwn := Leaves.attemptOwn
  now := fun _ _ => ⟨[.clock], rfl, hF.quiet rfl⟩
  outside := hF.same fun _ _ => rfl

theorem sleep {seconds : Binary64} (h : F [.sleep seconds]) : Leaves F (Act.sleep seconds) := by
  intro o j
  rcases sleep_cases seconds o j with hmade | hmade
  · exact ⟨[.sleep seconds], by rw [hmade], h⟩
  · exact ⟨[], by rw [hmade, List.append_nil], hF.nil⟩

/-- What follows the other part belongs to it. -/
theorem leads : Leads (fun x => Leaves (After G F) x) fun x => Leaves F x where
  bind hx hf := by
    refine hx.then hf (fun _ h => h) fun j k hj hk => ?_
    obtain ⟨first, rest, rfl, hfirst, hrest⟩ := hj
    exact ⟨first, rest ++ k, List.append_assoc _ _ _, hfirst, hF.append hrest hk⟩
  attempt := Leaves.attempt
  attemptOwn := Leaves.attemptOwn

theorem first (hx : Leaves G x) : Leaves (After G F) x :=
  hx.imp fun j h => ⟨j, [], (List.append_nil j).symm, h, hF.nil⟩

end Trail

open Act

namespace Client

/-- What the calls of a method leave has the property. -/
def CallsLeave (c : Client) (F : Journal → Prop) (method : Text) : Prop :=
  ∀ params, Leaves F (c.call method params)

/-- A call leaves its request, once or more often, and waits between them. -/
theorem call_leaves_posts {c : Client} {F : Journal → Prop} (hF : Trail F) {method : Text} {params : Json}
    (hpost : F [.post c.connection ⟨method, params.orElse (.arr [])⟩]) (hsleep : ∀ delay, F [.sleep delay]) :
    Leaves F (c.call method params) :=
  call_closed hF.closed.toClosed (fun _ _ => ⟨_, rfl, hpost⟩) fun delay => hF.sleep (hsleep delay)

end Client

end AssertionReplay
