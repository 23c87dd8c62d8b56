/-
Two clients of one endpoint.

Two clients that repeat a request as often differ in no more than the time
they allow for it, and that shows in a fault only. So calls of an endpoint that
replies to the same request always in the same way end alike for both
(`Client.Proper.mirrors`): what one of them gets, the other gets, and where
one fails, so does the other. Probing settles on the same way of tracing for
both (`Probe.select_mirrors`), and what an endpoint tells one about a chain, it
tells the other.
-/
import AssertionReplay.Proofs.Probing
import AssertionReplay.Proofs.Serving

namespace AssertionReplay

open Text

/-- The faults are the same, but for the time that was allowed for a call. -/
def Fault.SameButTime (e e' : Fault) : Prop :=
  e = e' ∨ ∃ method s s', e = .transport method (.timedOut s) ∧ e' = .transport method (.timedOut s')

namespace Fault.SameButTime

variable {e e' : Fault}

theorem isOwn (h : e.SameButTime e') : e.isOwn = e'.isOwn := by
  rcases h with rfl | ⟨method, s, s', rfl, rfl⟩ <;> rfl

theorem isUnsupported (h : e.SameButTime e') : Client.isUnsupported e = Client.isUnsupported e' := by
  rcases h with rfl | ⟨method, s, s', rfl, rfl⟩ <;> rfl

end Fault.SameButTime

namespace Act

/-- Both are values, and related, or both are faults, and the same but for times. -/
def Alike (R : α → β → Prop) : Except Fault α → Except Fault β → Prop
  | .ok a, .ok b => R a b
  | .error e, .error e' => e.SameButTime e'
  | _, _ => False

/-- From any two journals the actions end alike, each with its own outside. -/
def Mirrors (o o' : Outside) (x : Act α) (y : Act β) (R : α → β → Prop) : Prop :=
  ∀ j j', Alike R (x o j).1 (y o' j').1

variable {o o' : Outside} {x : Act α} {y : Act β} {R : α → β → Prop}

theorem Mirrors.cases (h : Mirrors o o' x y R) (j j' : Journal) :
    (∃ a j₁ b j₁', x o j = (.ok a, j₁) ∧ y o' j' = (.ok b, j₁') ∧ R a b) ∨
      ∃ e j₁ e' j₁', x o j = (.error e, j₁) ∧ y o' j' = (.error e', j₁') ∧ e.SameButTime e' := by
  have h := h j j'
  rcases hx : x o j with ⟨e | a, j₁⟩ <;> rcases hy : y o' j' with ⟨e' | b, j₁'⟩ <;> rw [hx, hy] at h
  · exact .inr ⟨e, j₁, e', j₁', rfl, rfl, h⟩
  · exact h.elim
  · exact h.elim
  · exact .inl ⟨a, j₁, b, j₁', rfl, rfl, h⟩

theorem Mirrors.pure {a : α} {b : β} (h : R a b) : Mirrors o o' (Pure.pure a) (Pure.pure b) R := fun _ _ => h

theorem Mirrors.fail {e e' : Fault} (h : e.SameButTime e') :
    Mirrors o o' (throw e : Act α) (throw e' : Act β) R := fun _ _ => h

theorem Mirrors.lift {r : Except Fault α} : Mirrors o o' (liftM r : Act α) (liftM r) (· = ·) := by
  intro j j'
  rw [lift_apply, lift_apply]
  cases r with
  | ok a => exact rfl
  | error e => exact .inl rfl

theorem Mirrors.bind {f : α → Act γ} {g : β → Act δ} {S : γ → δ → Prop} (hx : Mirrors o o' x y R)
    (hf : ∀ a b, R a b → Mirrors o o' (f a) (g b) S) : Mirrors o o' (x >>= f) (y >>= g) S := by
  intro j j'
  rcases hx.cases j j' with ⟨a, j₁, b, j₁', hxj, hyj, h⟩ | ⟨e, j₁, e', j₁', hxj, hyj, hsame⟩
  · rw [bind_apply_of_ok hxj, bind_apply_of_ok hyj]
    exact hf a b h j₁ j₁'
  · rw [bind_apply_of_error hxj, bind_apply_of_error hyj]
    exact hsame

theorem Mirrors.bind_eq {y : Act α} {f : α → Act γ} {g : α → Act δ} {S : γ → δ → Prop}
    (hx : Mirrors o o' x y (· = ·)) (hf : ∀ a, Mirrors o o' (f a) (g a) S) : Mirrors o o' (x >>= f) (y >>= g) S := by
  refine hx.bind fun a b h => ?_
  subst h
  exact hf a

theorem Mirrors.after_left {e : Event} {f : Unit → Act α} (h : Mirrors o o' (f ()) y R) :
    Mirrors o o' (Act.record e >>= f) y R :=
  fun j j' => h (j ++ [e]) j'

theorem Mirrors.after_right {e : Event} {g : Unit → Act β} (h : Mirrors o o' x (g ()) R) :
    Mirrors o o' x (Act.record e >>= g) R :=
  fun j j' => h j (j' ++ [e])

theorem Mirrors.after_record {e e' : Event} {f : Unit → Act α} {g : Unit → Act β}
    (h : Mirrors o o' (f ()) (g ()) R) : Mirrors o o' (Act.record e >>= f) (Act.record e' >>= g) R :=
  .after_left (.after_right h)

theorem Mirrors.after_logWritten {level : Level} {cause? cause'? : Option Fault} {text : Except Fault Text}
    {f : Unit → Act α} {g : Unit → Act β} (h : Mirrors o o' (f ()) (g ()) R) :
    Mirrors o o' (Act.logWritten level cause? text >>= f) (Act.logWritten level cause'? text >>= g) R := by
  cases text with
  | ok text => exact .after_record h
  | error e => exact h

/-- A pause that is as long for both is made by both, if they are limited in the same way. -/
theorem Mirrors.sleep (hlimit : o'.pauseLimit? = o.pauseLimit?) (seconds : Binary64) :
    Mirrors o o' (Act.sleep seconds) (Act.sleep seconds) (· = ·) := by
  intro j j'
  unfold Act.sleep
  rw [hlimit]
  split
  · exact rfl
  · exact .inl rfl

theorem Mirrors.ite {p : Prop} [Decidable p] {x' : Act α} {y' : Act β} (hx : Mirrors o o' x y R)
    (hx' : Mirrors o o' x' y' R) : Mirrors o o' (if p then x else x') (if p then y else y') R := by
  split
  · exact hx
  · exact hx'

theorem Mirrors.attemptOwn (h : Mirrors o o' x y R) : Mirrors o o' x.attemptOwn y.attemptOwn (Alike R) := by
  intro j j'
  unfold Act.attemptOwn
  rcases h.cases j j' with ⟨a, j₁, b, j₁', hx, hy, hR⟩ | ⟨e, j₁, e', j₁', hx, hy, hsame⟩ <;> simp only [hx, hy]
  · exact hR
  · rw [hsame.isOwn]
    split
    · exact hsame
    · exact hsame

/-- What holds of every end of one action holds of every end of the other, if it does not tell times. -/
theorem Ends.mirror {y : Act α} {P : α → Prop} {E : Fault → Prop} (h : Ends o x P fun e _ => E e)
    (hE : ∀ {e e'}, e.SameButTime e' → E e → E e') (hmirror : Mirrors o o' x y (· = ·)) :
    Ends o' y P fun e _ => E e := by
  refine .of_cases fun j' => ?_
  rcases hmirror.cases [] j' with ⟨a, j₁, b, j₁', hx, hy, heq⟩ | ⟨e, j₁, e', j₁', hx, hy, hsame⟩
  · exact .inl ⟨b, j₁', hy, heq ▸ h.ok hx⟩
  · exact .inr ⟨e', j₁', hy, hE hsame (h.error hx)⟩

theorem Ensures.mirror {y : Act α} {P : α → Prop} (h : Ensures o x P) (hmirror : Mirrors o o' x y (· = ·)) :
    Ensures o' y P :=
  (Ends.mirror (E := fun _ => False) h.ends (fun _ h => h) hmirror).ensures

end Act

open Act

variable {o o' : Outside} {c c' : Client}

/-! ## Calls -/

namespace Client

/-- Each call of one client ends as that of the other. -/
def Mirrors (c c' : Client) (o o' : Outside) : Prop :=
  ∀ method params, Act.Mirrors o o' (c.call method params) (c'.call method params) (· = ·)

theorem exchange_mirrors {answer : Request → Reply} (ho : ∀ past request, o.reply past request = answer request)
    (ho' : ∀ past request, o'.reply past request = answer request) (hlimit : o'.pauseLimit? = o.pauseLimit?)
    {connection connection' : Connection} {s s' : String} (hs : timeoutText connection.timeout = .ok s) (hs' : timeoutText connection'.timeout = .ok s')
    (request : Request) (left : Nat) (backoff : Binary64) :
    Act.Mirrors o o' (exchange connection request left backoff) (exchange connection' request left backoff)
      (· = ·) := by
  have hpost : Act.Mirrors o o' (Act.post connection request) (Act.post connection' request) (· = ·) := by
    intro j j'
    show o.reply _ _ = o'.reply _ _
    rw [ho, ho']
  have htimeout : Act.Mirrors o o'
      (do throw (.transport request.method (.timedOut (← timeoutText connection.timeout))) : Act Json)
      (do throw (.transport request.method (.timedOut (← timeoutText connection'.timeout)))) (· = ·) := by
    rw [hs, hs', lift_ok_bind, lift_ok_bind]
    exact .fail (.inr ⟨_, s, s', rfl, rfl⟩)
  induction left generalizing backoff with
  | zero =>
    unfold exchange
    refine hpost.bind_eq fun reply => ?_
    cases reply with
    | response r => exact .lift
    | timeout => exact htimeout
    | failure reason => exact .fail (.inl rfl)
    | raised fault => exact .fail (.inl rfl)
  | succ left ih =>
    unfold exchange
    refine hpost.bind_eq fun reply => ?_
    cases reply with
    | response r =>
      refine .ite (Mirrors.lift.bind_eq fun delay? => .after_record ?_) .lift
      exact (Mirrors.sleep hlimit _).bind_eq fun _ => ih _
    | timeout => exact htimeout
    | failure reason => exact .fail (.inl rfl)
    | raised fault => exact .fail (.inl rfl)

/-- **Clients mirror each other** if they repeat requests as often. -/
theorem Proper.mirrors (hc : c.Proper) (hc' : c'.Proper) (hretries : c.retries = c'.retries)
    {answer : Request → Reply} (ho : ∀ past request, o.reply past request = answer request)
    (ho' : ∀ past request, o'.reply past request = answer request) (hlimit : o'.pauseLimit? = o.pauseLimit?) :
    c.Mirrors c' o o' := by
  obtain ⟨s, hs⟩ := hc.timeout
  obtain ⟨s', hs'⟩ := hc'.timeout
  have hrepetitions : c.repetitions = c'.repetitions := by rw [repetitions, repetitions, hretries]
  intro method params
  unfold call
  rw [hrepetitions]
  refine Act.Mirrors.lift.bind_eq fun left => .ite ?_ (exchange_mirrors ho ho' hlimit hs hs' _ _ _)
  exact Act.Mirrors.bind (R := (· = ·)) (.fail (.inl rfl)) fun _ _ _ => exchange_mirrors ho ho' hlimit hs hs' _ _ _

variable {method : Text} {params v : Json}

theorem Gets.mirror (h : c.Gets o method params v) (hm : c.Mirrors c' o o') : c'.Gets o' method params v :=
  Act.Ensures.mirror h (hm method params)

theorem Fails.mirror (h : c.Fails o method params) (hm : c.Mirrors c' o o') : c'.Fails o' method params :=
  Act.Ends.mirror h (fun hsame hown => hsame.isOwn ▸ hown) (hm method params)

theorem Misses.mirror (h : c.Misses o method params) (hm : c.Mirrors c' o o') : c'.Misses o' method params :=
  Act.Ends.mirror h (fun hsame hown => hsame.isOwn ▸ hown) (hm method params)

end Client

/-! ## Probes -/

namespace Probe

variable (hm : c.Mirrors c' o o')

include hm

/-- The reports are on the same way, with the same status. -/
def SameFinding (r r' : ProbeReport) : Prop := r.capability = r'.capability ∧ r.status = r'.status

omit hm in
theorem classify_mirrors (way : Capability) {x y : Act Json} (h : Act.Mirrors o o' x y (· = ·)) :
    Act.Mirrors o o' (classify way x) (classify way y) SameFinding := by
  unfold classify
  refine h.attemptOwn.bind fun outcome outcome' halike => ?_
  cases outcome with
  | ok v => cases outcome' with
    | ok v' => exact .pure ⟨rfl, rfl⟩
    | error e' => exact halike.elim
  | error e => cases outcome' with
    | ok v' => exact halike.elim
    | error e' =>
      refine .pure ⟨rfl, ?_⟩
      dsimp only
      rw [Fault.SameButTime.isUnsupported halike]

theorem sampleFrom_mirrors (block : Json) (left i : Nat) :
    Act.Mirrors o o' (sampleFrom c block left i) (sampleFrom c' block left i) (· = ·) := by
  induction left generalizing i with
  | zero => exact .pure rfl
  | succ left ih =>
    have hblock : ∀ n : Number, Act.Mirrors o o' (c.blockByNumber n.toJson (.bool false))
        (c'.blockByNumber n.toJson (.bool false)) (· = ·) := fun n =>
      Mirrors.lift.bind_eq fun _ => hm _ _
    unfold sampleFrom
    refine Mirrors.lift.bind_eq fun n => .ite (.pure rfl) ?_
    refine (hblock n).attemptOwn.bind fun looked looked' halike => ?_
    cases looked with
    | ok v => cases looked' with
      | ok v' =>
        obtain rfl : v = v' := halike
        refine Mirrors.lift.bind_eq fun first? => ?_
        cases first? with
        | some transaction => exact .lift
        | none => exact ih _
      | error e' => exact halike.elim
    | error e => cases looked' with
      | ok v' => exact halike.elim
      | error e' => exact .after_logWritten (ih _)

theorem ranked_mirrors (block target : Json) : List.Forall₂ (fun x y => Act.Mirrors o o' x y SameFinding)
    (ranked c block target) (ranked c' block target) := by
  have horElse : ∀ method params w, Act.Mirrors o o'
      (do return (← c.call method params).orElse w : Act Json)
      (do return (← c'.call method params).orElse w) (· = ·) :=
    fun method params w => (hm method params).bind_eq fun _ => .pure rfl
  refine .cons ?_ (.cons ?_ (.cons ?_ .nil))
  · unfold traceFilter
    refine .ite (.pure ⟨rfl, rfl⟩) (classify_mirrors _ ?_)
    exact Mirrors.lift.bind_eq fun _ => Mirrors.lift.bind_eq fun _ => horElse _ _ _
  · exact classify_mirrors _ (Mirrors.lift.bind_eq fun _ => horElse _ _ _)
  · unfold traceTransaction
    refine Mirrors.bind_eq (y := sampleTransaction c' block (.int sampleLookback)) (sampleFrom_mirrors hm block _ _)
      fun hash => .ite (.pure ⟨rfl, rfl⟩) (classify_mirrors _ (horElse _ _ _))

omit hm in
theorem firstSupported_mirrors {probes probes' : List (Act ProbeReport)}
    (h : List.Forall₂ (fun x y => Act.Mirrors o o' x y SameFinding) probes probes') :
    Act.Mirrors o o' (firstSupported probes) (firstSupported probes') (· = ·) := by
  induction h with
  | nil => exact .after_record (.pure rfl)
  | cons hprobe _ ih =>
    unfold firstSupported
    refine hprobe.bind fun report report' hsame => ?_
    obtain ⟨hway, hstatus⟩ := hsame
    rw [hway, hstatus]
    refine .ite (.after_record (.pure rfl)) (.after_record ?_)
    -- The details may differ, and with them whether they are logged.
    dsimp only
    split <;> split
    · exact .after_record ih
    · exact .after_left ih
    · exact .after_right ih
    · exact ih

/-- **Probing settles on the same way** for both clients. -/
theorem select_mirrors (block target : Json) :
    Act.Mirrors o o' (select c block target) (select c' block target) (· = ·) :=
  firstSupported_mirrors (ranked_mirrors hm block target)

end Probe

/-! ## Chains -/

namespace Chain

variable {chain : Chain} {lost : Int → Bool} {missed : Mined → Bool} {address : Text} {a b : Int}

theorem Served.mirror (h : chain.Served o c lost a b) (hm : c.Mirrors c' o o') : chain.Served o' c' lost a b := by
  intro n ha hb
  have h := h n ha hb
  cases hl : lost n with
  | true =>
    rw [hl, if_pos rfl] at h
    rw [if_pos rfl]
    exact h.mirror hm
  | false =>
    rw [hl, if_neg (by simp)] at h
    rw [if_neg (by simp)]
    obtain ⟨v, hgets, hnumber, hitems⟩ := h
    exact ⟨v, hgets.mirror hm, hnumber, hitems⟩

theorem TracesRanges.mirror (h : chain.TracesRanges o c address a b) (hm : c.Mirrors c' o o') :
    chain.TracesRanges o' c' address a b := by
  intro first last hfirst hle hlast
  obtain ⟨traces, hgets, htraces⟩ := h first last hfirst hle hlast
  exact ⟨traces, hgets.mirror hm, htraces⟩

theorem TracesBlocks.mirror (h : chain.TracesBlocks o c missed a b) (hm : c.Mirrors c' o o') :
    chain.TracesBlocks o' c' missed a b := by
  intro n ha hb
  rcases h n ha hb with ⟨hfails, hmissed⟩ | ⟨frames, hgets, hframes⟩
  · exact .inl ⟨hfails.mirror hm, hmissed⟩
  · exact .inr ⟨frames, hgets.mirror hm, hframes⟩

theorem TracesTransactions.mirror (h : chain.TracesTransactions o c missed a b) (hm : c.Mirrors c' o o') :
    chain.TracesTransactions o' c' missed a b := by
  intro n ha hb t ht
  have h := h n ha hb t ht
  cases hmissed : missed t with
  | true =>
    rw [hmissed, if_pos rfl] at h
    rw [if_pos rfl]
    exact h.mirror hm
  | false =>
    rw [hmissed, if_neg (by simp)] at h
    rw [if_neg (by simp)]
    exact h.mirror hm

end Chain
end AssertionReplay
