/-
How an action ends, whatever was done before it.

`Act.Ends` is the triple of this development: an action ends with a value
that satisfies one predicate, or with a fault and a journal that satisfy
another, from every journal. The journal of a failing run is that of the step
that failed (`Ends.bind`), so the second predicate tells which step it was.
`Act.Ensures` is the case without a fault.
-/
import AssertionReplay.Journal
import Mathlib.Data.List.Forall2

namespace AssertionReplay

theorem bind_eq_ok_iff {x : Except ε α} {f : α → Except ε β} {b : β} :
    (x >>= f) = .ok b ↔ ∃ a, x = .ok a ∧ f a = .ok b := by
  cases x <;> simp [bind, Except.bind]

theorem eq_ok_of_toOption {r : Except ε α} {a : α} (h : r.toOption = some a) : r = .ok a := by
  cases r with
  | error e => cases h
  | ok b =>
    cases h
    rfl

theorem exists_of_forall₂ {R : α → β → Prop} {xs : List α} {ys : List β} (h : List.Forall₂ R xs ys) {x : α}
    (hx : x ∈ xs) : ∃ y ∈ ys, R x y := by
  induction h with
  | nil => cases hx
  | cons hr _ ih =>
    rcases List.mem_cons.mp hx with rfl | hx
    · exact ⟨_, by simp, hr⟩
    · obtain ⟨y, hy, hr⟩ := ih hx
      exact ⟨y, by simp [hy], hr⟩

theorem forall₂_imp_of_mem {R S : α → β → Prop} {xs : List α} {ys : List β} (h : List.Forall₂ R xs ys)
    (hS : ∀ y ∈ ys, ∀ x, R x y → S x y) : List.Forall₂ S xs ys := by
  induction h with
  | nil => exact .nil
  | cons hr _ ih =>
    rw [List.forall_mem_cons] at hS
    exact .cons (hS.1 _ hr) (ih hS.2)

namespace Act

theorem bind_unit (x : Act α) : Act.bind x Act.pure = x := by
  funext o j
  unfold Act.bind
  rcases x o j with ⟨_ | _, _⟩ <;> rfl

theorem bind_nested (x : Act α) (f : α → Act β) (g : β → Act γ) :
    Act.bind (Act.bind x f) g = Act.bind x fun a => Act.bind (f a) g := by
  funext o j
  unfold Act.bind
  rcases x o j with ⟨_ | _, _⟩ <;> rfl

instance : LawfulMonad Act := LawfulMonad.mk' Act bind_unit (fun _ _ => rfl) bind_nested

@[simp] theorem lift_ok_bind (a : α) (f : α → Act β) :
    ((liftM (Except.ok a : Except Fault α) : Act α) >>= f) = f a := rfl

@[simp] theorem lift_ok (a : α) : (liftM (Except.ok a : Except Fault α) : Act α) = Pure.pure a := rfl

theorem log_eq_logWritten (level : Level) (text : Text) :
    Act.log level text = Act.logWritten level none (.ok text) := rfl

theorem logFault_eq_logWritten (level : Level) (text : Text) (cause : Fault) :
    Act.logFault level text cause = Act.logWritten level (some cause) (.ok text) := rfl

theorem lift_apply (r : Except Fault α) (o : Outside) (j : Journal) : (liftM r : Act α) o j = (r, j) := by
  cases r <;> rfl

/-- What comes second starts with the value and the journal of what came first. -/
theorem bind_apply_eq_ok_iff {x : Act α} {f : α → Act β} {o : Outside} {j j' : Journal} {b : β} :
    (x >>= f) o j = (.ok b, j') ↔ ∃ a j₁, x o j = (.ok a, j₁) ∧ f a o j₁ = (.ok b, j') := by
  show Act.bind x f o j = _ ↔ _
  unfold Act.bind
  rcases x o j with ⟨e | a, j₁⟩ <;> simp

theorem bind_apply_of_ok {x : Act α} {f : α → Act β} {o : Outside} {j j₁ : Journal} {a : α}
    (h : x o j = (.ok a, j₁)) : (x >>= f) o j = f a o j₁ := by
  show Act.bind x f o j = _
  rw [Act.bind, h]

theorem bind_apply_of_error {x : Act α} {f : α → Act β} {o : Outside} {j j₁ : Journal} {e : Fault}
    (h : x o j = (.error e, j₁)) : (x >>= f) o j = (.error e, j₁) := by
  show Act.bind x f o j = _
  rw [Act.bind, h]

theorem now_apply {o : Outside} {j : Journal} :
    Act.now o j = (.ok (o.clock j.clockReads), j ++ [.clock]) := rfl

theorem attempt_apply {x : Act α} {o : Outside} {j j' : Journal} {r : Except Fault α} (h : x o j = (r, j')) :
    x.attempt o j = (.ok r, j') := by
  rw [Act.attempt, h]

theorem attemptOwn_of_ok {x : Act α} {o : Outside} {j j' : Journal} {a : α} (h : x o j = (.ok a, j')) :
    x.attemptOwn o j = (.ok (.ok a), j') := by
  rw [Act.attemptOwn, h]

theorem attemptOwn_of_error {x : Act α} {o : Outside} {j j' : Journal} {e : Fault} (h : x o j = (.error e, j')) :
    x.attemptOwn o j = (if e.isOwn then .ok (.error e) else .error e, j') := by
  rw [Act.attemptOwn, h]
  dsimp only
  split <;> rfl

theorem attemptOwn_of_own {x : Act α} {o : Outside} {j j' : Journal} {e : Fault} (h : x o j = (.error e, j'))
    (hown : e.isOwn = true) : x.attemptOwn o j = (.ok (.error e), j') := by
  rw [attemptOwn_of_error h, if_pos hown]

/-- Whether a fault is caught does not show in the journal. -/
theorem attemptOwn_snd (x : Act α) (o : Outside) (j : Journal) : (x.attemptOwn o j).2 = (x o j).2 := by
  rcases h : x o j with ⟨e | a, j'⟩
  · rw [attemptOwn_of_error h]
  · rw [attemptOwn_of_ok h]

theorem lift_bind_apply_eq_ok_iff {r : Except Fault α} {f : α → Act β} {o : Outside} {j j' : Journal} {b : β} :
    ((liftM r : Act α) >>= f) o j = (.ok b, j') ↔ ∃ a, r = .ok a ∧ f a o j = (.ok b, j') := by
  rw [bind_apply_eq_ok_iff]
  simp only [lift_apply, Prod.mk.injEq]
  constructor
  · intro h
    obtain ⟨a, _, ⟨hr, rfl⟩, hf⟩ := h
    exact ⟨a, hr, hf⟩
  · intro h
    obtain ⟨a, hr, hf⟩ := h
    exact ⟨a, j, ⟨hr, rfl⟩, hf⟩

/-- From every journal, the action ends with a value that satisfies `P`, or with a fault and a
journal that satisfy `Q`. -/
def Ends (o : Outside) (x : Act α) (P : α → Prop) (Q : Fault → Journal → Prop) : Prop :=
  ∀ j, match x o j with
    | (.ok a, _) => P a
    | (.error e, j') => Q e j'

/-- From every journal, the action ends with a value that satisfies `P`. -/
def Ensures (o : Outside) (x : Act α) (P : α → Prop) : Prop :=
  ∀ j, ∃ a, (x o j).1 = .ok a ∧ P a

variable {o : Outside} {x : Act α} {P : α → Prop} {Q : Fault → Journal → Prop}

theorem Ends.ok {j j' a} (h : Ends o x P Q) (hx : x o j = (.ok a, j')) : P a := by
  have := h j
  rwa [hx] at this

theorem Ends.error {j j' e} (h : Ends o x P Q) (hx : x o j = (.error e, j')) : Q e j' := by
  have := h j
  rwa [hx] at this

theorem Ends.of_cases (h : ∀ j, (∃ a j', x o j = (.ok a, j') ∧ P a) ∨
    ∃ e j', x o j = (.error e, j') ∧ Q e j') : Ends o x P Q := by
  intro j
  rcases h j with ⟨a, j', hx, ha⟩ | ⟨e, j', hx, he⟩ <;> simpa only [hx]

theorem Ends.of_eq {r : Except Fault α} (h : ∀ j, (x o j).1 = r) :
    Ends o x (fun a => r = .ok a) fun e _ => r = .error e := by
  refine .of_cases fun j => ?_
  rw [← h j]
  rcases x o j with ⟨e | a, j'⟩
  · exact .inr ⟨e, j', rfl, rfl⟩
  · exact .inl ⟨a, j', rfl, rfl⟩

theorem Ends.cases (h : Ends o x P Q) (j : Journal) : (∃ a j', x o j = (.ok a, j') ∧ P a) ∨
    ∃ e j', x o j = (.error e, j') ∧ Q e j' := by
  rcases hx : x o j with ⟨e | a, j'⟩
  · exact .inr ⟨e, j', rfl, h.error hx⟩
  · exact .inl ⟨a, j', rfl, h.ok hx⟩

theorem Ends.ensures (h : Ends o x P fun _ _ => False) : Ensures o x P := by
  intro j
  rcases h.cases j with ⟨a, j', hx, ha⟩ | ⟨_, _, _, he⟩
  · exact ⟨a, by rw [hx], ha⟩
  · exact he.elim

theorem Ends.fails (h : Ends o x (fun _ => False) Q) (j : Journal) : ∃ e, (x o j).1 = .error e := by
  rcases h.cases j with ⟨_, _, _, ha⟩ | ⟨e, j', hx, -⟩
  · exact ha.elim
  · exact ⟨e, by rw [hx]⟩

theorem Ensures.ends (h : Ensures o x P) : Ends o x P Q := by
  intro j
  obtain ⟨a, hx, ha⟩ := h j
  rcases hx' : x o j with ⟨e | b, j'⟩ <;> rw [hx'] at hx <;> cases hx
  exact ha

theorem Ends.mono {P' : α → Prop} {Q' : Fault → Journal → Prop} (h : Ends o x P Q)
    (hP : ∀ a, P a → P' a) (hQ : ∀ e j, Q e j → Q' e j) : Ends o x P' Q' := by
  refine .of_cases fun j => ?_
  rcases h.cases j with ⟨a, j', hx, ha⟩ | ⟨e, j', hx, he⟩
  · exact .inl ⟨a, j', hx, hP a ha⟩
  · exact .inr ⟨e, j', hx, hQ e j' he⟩

theorem Ends.imp {P' : α → Prop} (h : Ends o x P Q) (hP : ∀ a, P a → P' a) : Ends o x P' Q :=
  h.mono hP fun _ _ he => he

/-- A fault of the first step is the fault of the whole, at the same journal. -/
theorem Ends.bind {f : α → Act β} {R : β → Prop} (hx : Ends o x P Q)
    (hf : ∀ a, P a → Ends o (f a) R Q) : Ends o (x >>= f) R Q := by
  refine .of_cases fun j => ?_
  rcases hx.cases j with ⟨a, j', h, ha⟩ | ⟨e, j', h, he⟩
  · rw [bind_apply_of_ok h]
    exact (hf a ha).cases j'
  · exact .inr ⟨e, j', bind_apply_of_error h, he⟩

theorem Ends.bind_eq {a : α} {f : α → Act β} {R : β → Prop} (hx : Ends o x (· = a) Q) (hf : Ends o (f a) R Q) :
    Ends o (x >>= f) R Q := by
  refine hx.bind fun _ heq => ?_
  rw [heq]
  exact hf

theorem Ends.pure {a : α} (h : P a) : Ends o (Pure.pure a : Act α) P Q := fun _ => h

theorem Ends.map {f : α → β} {R : β → Prop} (h : Ends o x (fun a => R (f a)) Q) :
    Ends o (f <$> x) R Q := by
  rw [← bind_pure_comp]
  exact h.bind fun _ ha => .pure ha

/-- What a line is followed by, whether it could be written or not. -/
theorem Ends.after_logWritten {level : Level} {cause? : Option Fault} {text : Except Fault Text} {f : Unit → Act α}
    (h : Ends o (f ()) P Q) : Ends o (Act.logWritten level cause? text >>= f) P Q := by
  cases text with
  | ok text => exact fun j => h (j ++ [.log ⟨level, text, cause?⟩])
  | error e => exact h

theorem Ends.after_log {level : Level} {text : Text} {f : Unit → Act α} (h : Ends o (f ()) P Q) :
    Ends o (Act.log level text >>= f) P Q := by
  rw [log_eq_logWritten]
  exact .after_logWritten h

theorem Ends.after_logFault {level : Level} {text : Text} {cause : Fault} {f : Unit → Act α}
    (h : Ends o (f ()) P Q) : Ends o (Act.logFault level text cause >>= f) P Q := by
  rw [logFault_eq_logWritten]
  exact .after_logWritten h

theorem Ends.after_draw {text : Text} {f : Unit → Act α} (h : Ends o (f ()) P Q) :
    Ends o (Act.draw text >>= f) P Q := fun j => h (j ++ [.drew text])

theorem sleep_cases (seconds : Binary64) (o : Outside) (j : Journal) :
    Act.sleep seconds o j = (.ok (), j ++ [.sleep seconds]) ∨ Act.sleep seconds o j = (.error .outOfRange, j) := by
  unfold Act.sleep
  split
  · exact .inl rfl
  · exact .inr rfl

theorem Ends.now (P : Binary64 → Prop) (h : ∀ k, P (o.clock k)) : Ends o Act.now P Q :=
  fun j => h j.clockReads

theorem Ends.outside {P : Outside → Prop} (h : P o) : Ends o Act.outside P Q := fun _ => h

theorem Ends.attempt {R : Except Fault α → Prop} (h : Ends o x (fun a => R (.ok a)) fun e _ => R (.error e)) :
    Ends o x.attempt R Q := by
  refine .of_cases fun j => .inl ?_
  rcases h.cases j with ⟨a, j', hx, ha⟩ | ⟨e, j', hx, he⟩
  · exact ⟨.ok a, j', attempt_apply hx, ha⟩
  · exact ⟨.error e, j', attempt_apply hx, he⟩

theorem Ends.attempt_any : Ends o x.attempt (fun _ => True) Q := by
  refine .attempt fun j => ?_
  rcases x o j with ⟨_ | _, _⟩ <;> trivial

/-- The outcome of an action whose own faults are caught, if all its faults are. -/
theorem Ends.attemptOwn {R : Except Fault α → Prop}
    (h : Ends o x (fun a => R (.ok a)) fun e _ => e.isOwn = true ∧ R (.error e)) :
    Ends o x.attemptOwn R Q := by
  refine .of_cases fun j => .inl ?_
  rcases h.cases j with ⟨a, j', hx, ha⟩ | ⟨e, j', hx, hown, he⟩
  · exact ⟨.ok a, j', attemptOwn_of_ok hx, ha⟩
  · exact ⟨.error e, j', attemptOwn_of_own hx hown, he⟩

theorem Ends.attemptOwn_ok (h : Ends o x P fun _ _ => False) :
    Ends o x.attemptOwn (fun r => ∃ a, r = .ok a ∧ P a) Q :=
  .attemptOwn (h.mono (fun a ha => ⟨a, rfl, ha⟩) fun _ _ h => h.elim)

theorem Ends.attemptOwn_error (h : Ends o x (fun _ => False) fun e _ => e.isOwn = true) :
    Ends o x.attemptOwn (fun r => ∃ e, r = .error e) Q :=
  .attemptOwn (h.mono (fun _ h => h.elim) fun e _ hown => ⟨hown, e, rfl⟩)

theorem Ends.mapEach {f : α → Act β} {R : α → β → Prop} :
    ∀ {xs : List α}, (∀ x ∈ xs, Ends o (f x) (R x) Q) →
      Ends o (Act.mapEach xs f) (List.Forall₂ R xs) Q
  | [], _ => .pure .nil
  | x :: xs, h => by
    refine Ends.bind (h x (by simp)) fun y hy => ?_
    refine Ends.bind (Ends.mapEach fun x' hx' => h x' (by simp [hx'])) fun ys hys => ?_
    exact .pure (.cons hy hys)

/-! ## From one journal -/

/-- The action ends so from the journal. -/
def EndsFrom (o : Outside) (j : Journal) (x : Act α) (P : α → Prop) (Q : Fault → Journal → Prop) : Prop :=
  match x o j with
  | (.ok a, _) => P a
  | (.error e, j') => Q e j'

theorem Ends.from (h : Ends o x P Q) (j : Journal) : EndsFrom o j x P Q := h j

theorem EndsFrom.fail {e : Fault} {j : Journal} (h : Q e j) : EndsFrom o j (liftM (.error e : Except Fault α)) P Q := h

theorem EndsFrom.fail_bind {e : Fault} {j : Journal} {f : β → Act α} (h : Q e j) :
    EndsFrom o j ((liftM (.error e : Except Fault β) : Act β) >>= f) P Q := h

theorem EndsFrom.cases {j : Journal} (h : EndsFrom o j x P Q) : (∃ a j', x o j = (.ok a, j') ∧ P a) ∨
    ∃ e j', x o j = (.error e, j') ∧ Q e j' := by
  rw [EndsFrom] at h
  rcases hx : x o j with ⟨e | a, j'⟩ <;> rw [hx] at h
  · exact .inr ⟨e, j', rfl, h⟩
  · exact .inl ⟨a, j', rfl, h⟩

theorem EndsFrom.imp {j : Journal} {P' : α → Prop} (h : EndsFrom o j x P Q) (hP : ∀ a, P a → P' a) :
    EndsFrom o j x P' Q := by
  rcases h.cases with ⟨a, j', hx, ha⟩ | ⟨e, j', hx, he⟩ <;> rw [EndsFrom, hx]
  · exact hP a ha
  · exact he

/-- What comes second goes on from the journal that a first step with a value leaves. -/
theorem EndsFrom.of_ok {j j' : Journal} {a : α} {f : α → Act β} {R : β → Prop} (hx : x o j = (.ok a, j'))
    (hf : EndsFrom o j' (f a) R Q) : EndsFrom o j (x >>= f) R Q := by
  rw [EndsFrom, bind_apply_of_ok hx]
  exact hf

theorem EndsFrom.bind {j : Journal} {f : α → Act β} {R : β → Prop} (hx : EndsFrom o j x P Q)
    (hf : ∀ a, P a → Ends o (f a) R Q) : EndsFrom o j (x >>= f) R Q := by
  rcases hx.cases with ⟨a, j', h, ha⟩ | ⟨e, j', h, he⟩
  · exact .of_ok h ((hf a ha).from j')
  · rw [EndsFrom, bind_apply_of_error h]
    exact he

theorem EndsFrom.attempt {j : Journal} {R : Except Fault α → Prop}
    (h : EndsFrom o j x (fun a => R (.ok a)) fun e _ => R (.error e)) : EndsFrom o j x.attempt R Q := by
  rcases h.cases with ⟨a, j', hx, ha⟩ | ⟨e, j', hx, he⟩ <;> rw [EndsFrom, attempt_apply hx]
  · exact ha
  · exact he

/-- What comes after an action whose own faults are caught goes on from the journal that the action
leaves; a fault of another kind is one of the whole. -/
theorem Ends.attemptOwn_bind {f : Except Fault α → Act β} {R : β → Prop}
    (hx : Ends o x (fun _ => True) fun e j => e.isOwn = true ∨ Q e j)
    (hf : ∀ past r j, x o past = (r, j) → EndsFrom o j (f r) R Q) : Ends o (x.attemptOwn >>= f) R Q := by
  intro past
  have hgoes : ∀ r j, x o past = (r, j) → x.attemptOwn o past = (.ok r, j) →
      EndsFrom o past (x.attemptOwn >>= f) R Q := by
    intro r j hrun hcaught
    unfold EndsFrom
    rw [bind_apply_of_ok hcaught]
    exact hf past r j hrun
  rcases hx.cases past with ⟨a, j, h, -⟩ | ⟨e, j, h, hfault⟩
  · exact hgoes _ _ h (attemptOwn_of_ok h)
  · by_cases hown : e.isOwn = true
    · exact hgoes _ _ h (attemptOwn_of_own h hown)
    · have hescapes : x.attemptOwn o past = (.error e, j) := by rw [attemptOwn_of_error h, if_neg hown]
      rw [bind_apply_of_error hescapes]
      exact hfault.resolve_left hown

/-! ## Values alone -/

/-- If the action returns, its value satisfies `P`. -/
abbrev Yields (o : Outside) (x : Act α) (P : α → Prop) : Prop := Ends o x P fun _ _ => True

theorem Yields.returned : Yields o x fun a => ∃ past, (x o past).1 = .ok a := by
  refine .of_cases fun j => ?_
  rcases h : x o j with ⟨e | a, j'⟩
  · exact .inr ⟨e, j', rfl, trivial⟩
  · exact .inl ⟨a, j', rfl, j, by rw [h]⟩

theorem Ends.any : Ends o x (fun _ => True) fun _ _ => True := Yields.returned.imp fun _ _ => trivial

theorem Yields.lift {r : Except Fault α} (h : ∀ a, r = .ok a → P a) : Yields o (liftM r) P := by
  cases r with
  | ok a => exact .pure (h a rfl)
  | error e => exact fun _ => trivial

theorem Yields.attempt (h : Yields o x P) : Yields o x.attempt fun r => ∀ a, r = .ok a → P a := by
  refine Ends.attempt (h.mono (fun a ha b hb => ?_) fun e j _ b hb => ?_)
  · cases hb
    exact ha
  · cases hb

theorem Ends.and_yields {P' : α → Prop} (h : Ends o x P Q) (h' : Yields o x P') :
    Ends o x (fun a => P a ∧ P' a) Q := by
  refine .of_cases fun j => ?_
  rcases h.cases j with ⟨a, j', hx, ha⟩ | ⟨e, j', hx, he⟩
  · exact .inl ⟨a, j', hx, ha, h'.ok hx⟩
  · exact .inr ⟨e, j', hx, he⟩

end Act
end AssertionReplay
