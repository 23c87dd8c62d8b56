/-
Runs that look the same to somebody.

Nobody sees all of a journal: an assertion host sees the calls that it gets, an
endpoint the requests. Two actions stay in view of each other
(`Act.InView`) if from journals that look the same they end in the same way,
and the journals look the same again. What is built of such actions is such an
action, whatever the view is; only events that can be seen, and replies that
depend on what was seen, have to do with the view itself.
-/
import AssertionReplay.Proofs.Outcome

namespace AssertionReplay.Act

/-- From journals that look the same, the actions end in the same way, and with journals that do. -/
def InView (view : Journal → δ) (o o' : Outside) (x y : Act α) : Prop :=
  ∀ j j', view j = view j' → (x o j).1 = (y o' j').1 ∧ view (x o j).2 = view (y o' j').2

variable {view : Journal → δ} {o o' : Outside} {x y : Act α}

theorem InView.pure {a : α} : InView view o o' (Pure.pure a) (Pure.pure a) := fun _ _ h => ⟨rfl, h⟩

theorem InView.lift {r : Except Fault α} : InView view o o' (liftM r) (liftM r) := by
  intro j j' h
  rw [lift_apply, lift_apply]
  exact ⟨rfl, h⟩

theorem InView.record {e : Event} (he : ∀ j j', view j = view j' → view (j ++ [e]) = view (j' ++ [e])) :
    InView view o o' (Act.record e) (Act.record e) := fun j j' h => ⟨rfl, he j j' h⟩

theorem InView.bind {f g : α → Act β} (hx : InView view o o' x y) (hf : ∀ a, InView view o o' (f a) (g a)) :
    InView view o o' (x >>= f) (y >>= g) := by
  intro j j' h
  obtain ⟨hend, hview⟩ := hx j j' h
  rcases hxj : x o j with ⟨e | a, j₁⟩ <;> rcases hyj : y o' j' with ⟨e' | a', j₁'⟩ <;> rw [hxj, hyj] at hend hview
  · cases hend
    rw [bind_apply_of_error hxj, bind_apply_of_error hyj]
    exact ⟨rfl, hview⟩
  · cases hend
  · cases hend
  · cases hend
    rw [bind_apply_of_ok hxj, bind_apply_of_ok hyj]
    exact hf a j₁ j₁' hview

theorem InView.attempt (h : InView view o o' x y) : InView view o o' x.attempt y.attempt := by
  intro j j' hview
  obtain ⟨hend, hview'⟩ := h j j' hview
  exact ⟨congrArg Except.ok hend, hview'⟩

theorem InView.attemptOwn (h : InView view o o' x y) : InView view o o' x.attemptOwn y.attemptOwn := by
  intro j j' hview
  obtain ⟨hend, hview'⟩ := h j j' hview
  rcases hxj : x o j with ⟨e | a, j₁⟩ <;> rcases hyj : y o' j' with ⟨e' | a', j₁'⟩ <;> rw [hxj, hyj] at hend hview'
  · cases hend
    rw [attemptOwn_of_error hxj, attemptOwn_of_error hyj]
    exact ⟨rfl, hview'⟩
  · cases hend
  · cases hend
  · cases hend
    rw [attemptOwn_of_ok hxj, attemptOwn_of_ok hyj]
    exact ⟨rfl, hview'⟩

end AssertionReplay.Act
