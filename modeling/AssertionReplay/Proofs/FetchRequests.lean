/-
What a fetch asks the endpoint for.

`Act.Asks` is a triple for requests: whatever an action adds to the journal,
the requests in it satisfy a predicate. That is closed, so each function asks
for what its calls ask for. What comes second may also be known to start from
what came first (`Act.Asks.bind_yields`), since a fetch asks for the receipts
of transactions that it has read. With the way of tracing fixed, a fetch asks
for what its batches ask for (`Fetcher.fetch_asks`).
-/
import AssertionReplay.Proofs.Backoff
import AssertionReplay.Proofs.Closure
import AssertionReplay.Proofs.Range

namespace AssertionReplay

open Text

theorem Journal.requests_concat {e : Event} (h : Journal.requests [e] = []) (j : Journal) :
    requests (j ++ [e]) = j.requests := by
  rw [requests_append, h, List.append_nil]

namespace Act

theorem attempt_pure (a : α) : (Pure.pure a : Act α).attempt = Pure.pure (.ok a) := rfl

/-- Whatever the action adds to a journal, each request in it satisfies `P`. -/
def Asks (o : Outside) (P : Request → Prop) (x : Act α) : Prop :=
  ∀ j, ∃ asked, (x o j).2.requests = j.requests ++ asked ∧ ∀ request ∈ asked, P request

variable {o : Outside} {P : Request → Prop} {x : Act α}

theorem Asks.of_same (h : ∀ j, (x o j).2.requests = j.requests) : Asks o P x :=
  fun j => ⟨[], by rw [h, List.append_nil], by simp⟩

theorem Asks.mono {P' : Request → Prop} (hx : Asks o P x) (h : ∀ request, P request → P' request) : Asks o P' x := by
  intro j
  obtain ⟨asked, hasked, hall⟩ := hx j
  exact ⟨asked, hasked, fun request hmem => h request (hall request hmem)⟩

theorem Asks.record {e : Event} (he : Journal.requests [e] = []) : Asks o P (Act.record e) :=
  .of_same fun j => Journal.requests_concat he j

theorem Asks.sleep (seconds : Binary64) : Asks o P (Act.sleep seconds) := by
  refine .of_same fun j => ?_
  rcases sleep_cases seconds o j with h | h
  · rw [h, Journal.requests_concat rfl]
  · rw [h]

theorem Asks.post {connection : Connection} {request : Request} (h : P request) :
    Asks o P (Act.post connection request) :=
  fun j => ⟨[request], Journal.requests_append j _, by simpa using h⟩

theorem Asks.bind_yields {f : α → Act β} {R : α → Prop} (hx : Asks o P x) (hr : Yields o x R)
    (hf : ∀ a, R a → Asks o P (f a)) : Asks o P (x >>= f) := by
  intro j
  obtain ⟨asked, hasked, hall⟩ := hx j
  rcases h : x o j with ⟨e | a, j₁⟩
  · exact ⟨asked, by rw [bind_apply_of_error h, ← hasked, h], hall⟩
  · obtain ⟨more, hmore, hall'⟩ := hf a (hr.ok h) j₁
    refine ⟨asked ++ more, ?_, ?_⟩
    · rw [bind_apply_of_ok h, hmore, ← List.append_assoc, ← hasked, h]
    · intro request hmem
      exact (List.mem_append.mp hmem).elim (hall request) (hall' request)

theorem Asks.attemptOwn (hx : Asks o P x) : Asks o P x.attemptOwn := by
  intro j
  obtain ⟨asked, hasked, hall⟩ := hx j
  exact ⟨asked, by rw [attemptOwn_snd, hasked], hall⟩

theorem asks_closed (o : Outside) (P : Request → Prop) : ClosedOutside fun x => Asks o P x where
  lift := .of_same fun j => by rw [lift_apply]
  record {e} he := .record <| by
    cases e with
    | post => cases he
    | _ => rfl
  bind hx hf := hx.bind_yields (R := fun _ => True) .any fun a _ => hf a
  attempt hx := hx
  attemptOwn := Asks.attemptOwn
  now := .of_same fun j => Journal.requests_concat rfl j
  outside := .of_same fun _ => rfl

end Act

open Act

variable {o : Outside} {P : Request → Prop}

/-- A call asks for one thing, once or more often. -/
theorem Client.call_asks {c : Client} {method : Text} {params : Json} (h : P (requestOf method params)) :
    Asks o P (c.call method params) :=
  call_closed (asks_closed o P).toClosed (.post h) .sleep

namespace Fetcher

variable {f : Fetcher}

/-- The way of tracing that is fixed is the one that is settled on. -/
theorem capabilityFor_of_chosen {way : Capability} (hway : f.chosen? = some way) (block : Number) :
    f.capabilityFor block = Pure.pure way := by
  unfold capabilityFor
  rw [hway]

/-- **A fetch asks for what its batches ask for**, if the way of tracing is fixed. -/
theorem run_asks {way : Capability} (hway : f.chosen? = some way) {a b : Int}
    (h : ∀ first last, a ≤ first → last ≤ b → Asks o P (f.fetchBatch (.of way f.receiptFallback) first last)) :
    Asks o P (f.run (.int a) (.int b)) := by
  have hP := asks_closed o P
  unfold run
  split
  · exact hP.pure
  · rename_i hrange
    cases (bounds_of_rangeOf hrange).2.2
    refine hP.bind hP.now fun started => ?_
    rw [capabilityFor_of_chosen hway, Act.attempt_pure, pure_bind]
    refine hP.bind (hP.attempt (fetchWith_closed hP (fun a' b' size ha hb p hp => ?_) started)) fun _ => hP.pure
    cases ha
    cases hb
    obtain ⟨hfirst, -, hlast⟩ := mem_batches hp
    exact h _ _ hfirst hlast

theorem fetch_asks {way : Capability} (hway : f.chosen? = some way) {a b : Int}
    (h : ∀ first last, a ≤ first → last ≤ b → Asks o P (f.fetchBatch (.of way f.receiptFallback) first last)) :
    Asks o P (f.fetch (.int a) (.int b)) :=
  (asks_closed o P).bind (run_asks hway h) fun _ => (asks_closed o P).lift

theorem run_yields_same {way : Capability} (hway : f.chosen? = some way) (first last : Json) :
    Yields o (f.run first last) fun p => p.1 = f := by
  unfold run
  split
  · exact .pure rfl
  · refine .bind .any fun started _ => ?_
    rw [capabilityFor_of_chosen hway, Act.attempt_pure, pure_bind]
    refine Ends.bind (P := fun _ => True) .any fun result _ => .pure ?_
    show { f with chosen? := some way } = f
    rw [← hway]

end Fetcher
end AssertionReplay
