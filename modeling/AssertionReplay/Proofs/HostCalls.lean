/-
The calls that an action makes of the assertion host, and their answers.

The answers of the host are not in the journal, but what it answered is known
from the calls before (`Outside.exchanges`). A script is a property of calls
with answers. An action follows a script for its result (`Act.Follows`) if
the calls of every run that returns satisfy it, and those of every run that
fails are cut short: they would go on to satisfy it had the last of them,
which raised, been answered.
-/
import AssertionReplay.Proofs.Outcome

namespace AssertionReplay

theorem Journal.hostCalls_append (j k : Journal) : hostCalls (j ++ k) = j.hostCalls ++ k.hostCalls :=
  List.filterMap_append

/-- A call with what the host answered. -/
structure Exchange where
  call : HostCall
  answer : Except Fault call.Answer

namespace Exchange

def answered (call : HostCall) (a : call.Answer) : Exchange := ⟨call, .ok a⟩

def Raised (x : Exchange) : Prop := ∃ e, x.answer = .error e

theorem not_raised_answered (call : HostCall) (a : call.Answer) : ¬ (answered call a).Raised := by
  rintro ⟨e, he⟩
  cases he

end Exchange

/-- The calls with their answers, after those that were made before. -/
def Outside.exchanges (o : Outside) : (past : List HostCall) → List HostCall → List Exchange
  | _, [] => []
  | past, call :: rest => ⟨call, o.host past call⟩ :: o.exchanges (past ++ [call]) rest

theorem Outside.exchanges_append (o : Outside) (past calls more : List HostCall) :
    o.exchanges past (calls ++ more) = o.exchanges past calls ++ o.exchanges (past ++ calls) more := by
  induction calls generalizing past with
  | nil => simp [exchanges]
  | cons call calls ih => simp [exchanges, ih]

theorem Outside.map_call_exchanges (o : Outside) (past calls : List HostCall) :
    (o.exchanges past calls).map (·.call) = calls := by
  induction calls generalizing past with
  | nil => rfl
  | cons call calls ih => simp [exchanges, ih]

theorem Outside.length_exchanges (o : Outside) (past calls : List HostCall) :
    (o.exchanges past calls).length = calls.length := by
  rw [← List.length_map (·.call), o.map_call_exchanges]

/-- The same answers to a sequence of calls are the same answers to each of its parts. -/
theorem Outside.exchanges_append_inj {o o' : Outside} {past calls more : List HostCall}
    (h : o'.exchanges past (calls ++ more) = o.exchanges past (calls ++ more)) :
    o'.exchanges past calls = o.exchanges past calls ∧
      o'.exchanges (past ++ calls) more = o.exchanges (past ++ calls) more := by
  rw [exchanges_append, exchanges_append] at h
  exact List.append_inj h (by rw [length_exchanges, length_exchanges])

/-- Hosts that answer alike at every place of a sequence give the same exchanges. -/
theorem Outside.exchanges_congr {o o' : Outside} {past calls : List HostCall}
    (h : ∀ before call after, calls = before ++ call :: after →
      o'.host (past ++ before) call = o.host (past ++ before) call) :
    o'.exchanges past calls = o.exchanges past calls := by
  induction calls generalizing past with
  | nil => rfl
  | cons call calls ih =>
    have hcall : o'.host past call = o.host past call := by
      have := h [] call calls rfl
      rwa [List.append_nil] at this
    have hcalls : o'.exchanges (past ++ [call]) calls = o.exchanges (past ++ [call]) calls := by
      refine ih fun before later after heq => ?_
      rw [List.append_assoc]
      exact h (call :: before) later after (by rw [heq, List.cons_append])
    rw [exchanges, exchanges, hcall, hcalls]

theorem Outside.of_mem_exchanges {o : Outside} {past calls : List HostCall} {x : Exchange}
    (h : x ∈ o.exchanges past calls) : ∃ past, x.answer = o.host past x.call := by
  induction calls generalizing past with
  | nil => cases h
  | cons call calls ih =>
    rcases List.mem_cons.mp h with rfl | h
    · exact ⟨past, rfl⟩
    · exact ih h

/-! ## Scripts -/

/-- Which calls, with their answers, there may be. -/
abbrev Script := List Exchange → Prop

namespace Script

/-- The calls of a script up to one that raised. -/
def CutShort (P : Script) : Script := fun xs =>
  ∃ ys x, xs = ys ++ [x] ∧ x.Raised ∧ ∃ a zs, P (ys ++ Exchange.answered x.call a :: zs)

theorem CutShort.mono {P Q : Script} {xs : List Exchange} (h : CutShort P xs) (hPQ : ∀ xs, P xs → Q xs) :
    CutShort Q xs := by
  obtain ⟨ys, x, rfl, hx, a, zs, hP⟩ := h
  exact ⟨ys, x, rfl, hx, a, zs, hPQ _ hP⟩

theorem CutShort.prepend {P : Script} {xs : List Exchange} (ys : List Exchange)
    (h : CutShort (fun zs => P (ys ++ zs)) xs) : CutShort P (ys ++ xs) := by
  obtain ⟨zs, x, rfl, hx, a, ws, hP⟩ := h
  exact ⟨ys ++ zs, x, by rw [List.append_assoc], hx, a, ws, by rwa [List.append_assoc]⟩

/-- What is cut short could have gone on with more calls than the script tells. -/
theorem CutShort.extend {P Q : Script} {xs : List Exchange} (h : CutShort P xs)
    (hQ : ∀ ys, P ys → ∃ zs, Q (ys ++ zs)) : CutShort Q xs := by
  obtain ⟨ys, x, rfl, hx, a, zs, hP⟩ := h
  obtain ⟨ws, hws⟩ := hQ _ hP
  exact ⟨ys, x, rfl, hx, a, zs ++ ws, by simpa using hws⟩

theorem CutShort.raised {P : Script} {xs : List Exchange} (h : CutShort P xs) : ∃ x ∈ xs, x.Raised := by
  obtain ⟨ys, x, rfl, hx, -⟩ := h
  exact ⟨x, by simp, hx⟩

end Script

namespace Act

/-- From every journal, the calls with their answers, and how the action ends, are as told. -/
def Calls (o : Outside) (x : Act α) (S : Except Fault α → Script) : Prop :=
  ∀ j, ∃ calls, (x o j).2.hostCalls = j.hostCalls ++ calls ∧ S (x o j).1 (o.exchanges j.hostCalls calls)

/-- The action follows a script for its result, or is cut short in following it. -/
def Follows (o : Outside) (x : Act α) (P : α → Script) : Prop :=
  Calls o x fun r xs =>
    match r with
    | .ok a => P a xs
    | .error _ => Script.CutShort (fun ys => ∃ a, P a ys) xs

variable {o : Outside} {x : Act α} {S : Except Fault α → Script} {P : α → Script}

theorem Calls.mono {S' : Except Fault α → Script} (h : Calls o x S) (hS : ∀ r xs, S r xs → S' r xs) :
    Calls o x S' := by
  intro j
  obtain ⟨calls, hcalls, hS'⟩ := h j
  exact ⟨calls, hcalls, hS _ _ hS'⟩

/-- What follows a first step that returns comes after its calls; its fault is the fault of all. -/
theorem Calls.bind {f : α → Act β} {T : Except Fault β → Script} (hx : Calls o x S)
    (hok : ∀ a ys, S (.ok a) ys → Calls o (f a) fun r zs => T r (ys ++ zs))
    (herror : ∀ e ys, S (.error e) ys → T (.error e) ys) : Calls o (x >>= f) T := by
  intro j
  obtain ⟨calls, hcalls, hS⟩ := hx j
  rcases h : x o j with ⟨e | a, j'⟩ <;> rw [h] at hcalls hS
  · rw [bind_apply_of_error h]
    exact ⟨calls, hcalls, herror e _ hS⟩
  · rw [bind_apply_of_ok h]
    obtain ⟨more, hmore, hT⟩ := hok a _ hS j'
    refine ⟨calls ++ more, by rw [hmore, hcalls, List.append_assoc], ?_⟩
    rw [o.exchanges_append, ← hcalls]
    exact hT

theorem Calls.pure {a : α} (h : S (.ok a) []) : Calls o (Pure.pure a) S :=
  fun _ => ⟨[], (List.append_nil _).symm, h⟩

theorem Calls.lift {r : Except Fault α} (h : S r []) : Calls o (liftM r) S := by
  intro j
  rw [lift_apply]
  exact ⟨[], (List.append_nil _).symm, h⟩

theorem Calls.record {e : Event} {S : Except Fault Unit → Script} (he : Journal.hostCalls [e] = [])
    (h : S (.ok ()) []) : Calls o (Act.record e) S := by
  intro j
  refine ⟨[], ?_, h⟩
  show Journal.hostCalls (j ++ [e]) = _
  rw [Journal.hostCalls_append, he]

theorem Calls.log {level : Level} {text : Text} {S : Except Fault Unit → Script} (h : S (.ok ()) []) :
    Calls o (Act.log level text) S := .record rfl h

theorem Calls.logFault {level : Level} {text : Text} {cause : Fault} {S : Except Fault Unit → Script}
    (h : S (.ok ()) []) : Calls o (Act.logFault level text cause) S := .record rfl h

theorem Calls.after_record {e : Event} {f : Unit → Act α} (he : Journal.hostCalls [e] = [])
    (h : Calls o (f ()) S) : Calls o (Act.record e >>= f) S := by
  refine Calls.bind (Calls.record (S := fun r ys => r = .ok () ∧ ys = []) he ⟨rfl, rfl⟩) ?_ ?_
  · rintro a _ ⟨-, rfl⟩
    exact h
  · rintro e _ ⟨h, -⟩
    cases h

theorem Calls.after_log {level : Level} {text : Text} {f : Unit → Act α} (h : Calls o (f ()) S) :
    Calls o (Act.log level text >>= f) S := .after_record rfl h

theorem Calls.after_logFault {level : Level} {text : Text} {cause : Fault} {f : Unit → Act α}
    (h : Calls o (f ()) S) : Calls o (Act.logFault level text cause >>= f) S := .after_record rfl h

theorem Calls.after_logWritten {level : Level} {cause? : Option Fault} {text : Except Fault Text} {f : Unit → Act α}
    (h : Calls o (f ()) S) : Calls o (Act.logWritten level cause? text >>= f) S := by
  cases text with
  | ok text => exact .after_record rfl h
  | error e => exact h

theorem Calls.after_lift {r : Except Fault α} {f : α → Act β} {T : Except Fault β → Script}
    (hok : ∀ a, r = .ok a → Calls o (f a) T) (herror : ∀ e, r = .error e → T (.error e) []) :
    Calls o (liftM r >>= f) T := by
  refine Calls.bind (Calls.lift (S := fun r' ys => r' = r ∧ ys = []) ⟨rfl, rfl⟩) ?_ ?_
  · rintro a _ ⟨h, rfl⟩
    exact hok a h.symm
  · rintro e _ ⟨h, rfl⟩
    exact herror e h.symm

theorem Calls.attempt (h : Calls o x S) : Calls o x.attempt fun r xs => ∃ r', r = .ok r' ∧ S r' xs := fun j =>
  let ⟨calls, hcalls, hS⟩ := h j
  ⟨calls, hcalls, (x o j).1, rfl, hS⟩

/-! ## Following a script -/

theorem nonempty_answer (call : HostCall) : Nonempty call.Answer := by
  cases call <;> first | exact ⟨()⟩ | exact ⟨(0 : Int)⟩ | exact ⟨(⟨true, []⟩ : CallResult)⟩

theorem Follows.host (call : HostCall) : Follows o (Act.host call) fun a xs => xs = [.answered call a] := by
  intro j
  refine ⟨[call], ?_, ?_⟩
  · exact Journal.hostCalls_append _ _
  · rw [show (Act.host call o j).1 = o.host j.hostCalls call from rfl, Outside.exchanges]
    rcases o.host j.hostCalls call with e | a
    · obtain ⟨a⟩ := nonempty_answer call
      exact ⟨[], ⟨call, .error e⟩, rfl, ⟨e, rfl⟩, a, [], a, rfl⟩
    · rfl

theorem Follows.mono {Q : α → Script} (h : Follows o x P) (hPQ : ∀ a xs, P a xs → Q a xs) : Follows o x Q := by
  refine Calls.mono h fun r xs hr => ?_
  cases r with
  | ok a => exact hPQ a xs hr
  | error e => exact hr.mono fun ys ⟨a, ha⟩ => ⟨a, hPQ a ys ha⟩

theorem Follows.pure {a : α} (h : P a []) : Follows o (Pure.pure a) P := Calls.pure h

theorem Follows.after_log {level : Level} {text : Text} {f : Unit → Act α} (h : Follows o (f ()) P) :
    Follows o (Act.log level text >>= f) P := Calls.after_log h

theorem Follows.ite {p : Prop} [Decidable p] {y : Act α} (hx : p → Follows o x P) (hy : ¬ p → Follows o y P) :
    Follows o (if p then x else y) P := by
  split
  · exact hx ‹_›
  · exact hy ‹_›

/-- **One step after another.** Whatever the first one leaves must let the whole script be finished. -/
theorem Follows.bind {f : α → Act β} {Q : β → Script} (hx : Follows o x P)
    (hf : ∀ a ys, P a ys → Follows o (f a) fun b zs => Q b (ys ++ zs))
    (hgo : ∀ a ys, P a ys → ∃ b zs, Q b (ys ++ zs)) : Follows o (x >>= f) Q := by
  refine Calls.bind hx (fun a ys hP => ?_) fun e ys hP => ?_
  · refine Calls.mono (hf a ys hP) fun r zs hr => ?_
    cases r with
    | ok b => exact hr
    | error e => exact Script.CutShort.prepend ys hr
  · refine Script.CutShort.extend hP fun zs ⟨a, ha⟩ => ?_
    obtain ⟨b, ws, hQ⟩ := hgo a zs ha
    exact ⟨ws, b, hQ⟩

end Act
end AssertionReplay
