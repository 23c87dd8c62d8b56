/-
What an endpoint is known to answer.

`Client.Gets` says that a call yields a value whatever was asked before, so it
speaks of the endpoint and of the client's retries together; `Client.Fails`
says that the call always fails with a fault of the tool's own, and
`Client.Misses` that it either does or answers nothing.
-/
import AssertionReplay.Client
import AssertionReplay.Proofs.Digits
import AssertionReplay.Proofs.Outcome

namespace AssertionReplay

open Text

namespace Client

variable {c : Client} {o : Outside} {method : Text} {params v : Json}

/-- The call yields the value, whatever was asked before. -/
def Gets (c : Client) (o : Outside) (method : Text) (params v : Json) : Prop :=
  Act.Ensures o (c.call method params) (· = v)

/-- The call fails, whatever was asked before: the endpoint answers with an error, or not at all. -/
def Fails (c : Client) (o : Outside) (method : Text) (params : Json) : Prop :=
  Act.Ends o (c.call method params) (fun _ => False) fun e _ => e.isOwn = true

/-- The call fails, or what it yields does not count as given. -/
def Misses (c : Client) (o : Outside) (method : Text) (params : Json) : Prop :=
  Act.Ends o (c.call method params) (fun v => v.isGiven = false) fun e _ => e.isOwn = true

theorem Fails.misses (h : c.Fails o method params) : c.Misses o method params :=
  h.mono (fun _ h => h.elim) fun _ _ h => h

theorem Gets.orElse {Q : Fault → Journal → Prop} {w : Json} (h : c.Gets o method params v) :
    Act.Ends o (do return (← c.call method params).orElse w : Act Json) (· = v.orElse w) Q := by
  refine .bind_eq h.ends ?_
  exact .pure rfl

theorem Fails.orElse {w : Json} (h : c.Fails o method params) :
    Act.Ends o (do return (← c.call method params).orElse w : Act Json) (fun _ => False)
      fun e _ => e.isOwn = true :=
  .bind h fun _ h => h.elim

theorem traceBlock_int (c : Client) (n : Int) : c.traceBlock (.int n) = do
    let params := .arr [.str (hexNumeral n), callTracer]
    return (← c.call "debug_traceBlockByNumber" params).orElse (.arr []) := rfl

theorem traceFilter_int (c : Client) (first last : Int) (address : Json) :
    c.traceFilter (.int first) (.int last) address = do
      let params := .arr [.obj [("fromBlock", .str (hexNumeral first)), ("toBlock", .str (hexNumeral last)),
        ("toAddress", .arr [address])]]
      return (← c.call "trace_filter" params).orElse (.arr []) := rfl

/-! ## An endpoint that answers by a function -/

/-- Every request is answered with a result, or with an error where there is none; nothing else is
connected. -/
def answering (answer? : Request → Option Json) : Outside where
  reply := fun _ request =>
    match answer? request with
    | some result => .response ⟨200, [], some (.obj [("result", result)])⟩
    | none => .response ⟨200, [], some (.obj [("error", .str "unavailable")])⟩
  host := fun _ _ => .error .outOfRange
  clock := fun _ => .ofInt 0
  columns? := none
  schedule := .inOrder

variable {answer? : Request → Option Json}

theorem exchange_response {connection : Connection} {request : Request} {left : Nat} {backoff : Binary64}
    {r : Response} (hr : ∀ past, o.reply past request = .response r) (hs : r.status ≠ 429) (j : Journal) :
    (exchange connection request left backoff o j).1 = resultOf request.method r := by
  have hpost : Act.post connection request o j = (.ok (.response r), j ++ [.post connection request]) := by
    simp only [Act.post, hr]
  have hstatus : (r.status == 429) = false := by simpa using hs
  unfold exchange
  rw [Act.bind_apply_of_ok hpost]
  cases left with
  | zero => simp only [Act.lift_apply]
  | succ left => simp only [hstatus, Bool.false_eq_true, if_false, Act.lift_apply]

theorem call_of_response {k : Nat} (hretries : c.retries = .int k) {r : Response}
    (hr : ∀ past, o.reply past ⟨method, params.orElse (.arr [])⟩ = .response r) (hs : r.status ≠ 429)
    (j : Journal) : (c.call method params o j).1 = resultOf method r := by
  have hleft : c.repetitions = .ok k := by
    simp [repetitions, hretries, Json.number?, Number.index?, Quantity.toInt]
  unfold call
  rw [hleft, Act.lift_ok_bind, if_neg (by omega)]
  exact exchange_response hr hs j

theorem gets_answering {k : Nat} (hretries : c.retries = .int k)
    (h : answer? ⟨method, params.orElse (.arr [])⟩ = some v) :
    c.Gets (answering answer?) method params v := by
  have hr : ∀ past, (answering answer?).reply past ⟨method, params.orElse (.arr [])⟩ =
      .response ⟨200, [], some (.obj [("result", v)])⟩ := fun _ => by simp only [answering, h]
  refine fun j => ⟨v, ?_, rfl⟩
  rw [call_of_response hretries hr (by simp) j]
  rfl

theorem fails_answering {k : Nat} (hretries : c.retries = .int k)
    (h : answer? ⟨method, params.orElse (.arr [])⟩ = none) :
    c.Fails (answering answer?) method params := by
  have hr : ∀ past, (answering answer?).reply past ⟨method, params.orElse (.arr [])⟩ =
      .response ⟨200, [], some (.obj [("error", .str "unavailable")])⟩ := fun _ => by simp only [answering, h]
  refine .of_cases fun j => .inr ?_
  have hcall := call_of_response hretries hr (by simp) j
  exact ⟨errorOf method (.str "unavailable"), (c.call method params (answering answer?) j).2,
    Prod.ext hcall rfl, rfl⟩

end Client

/-! ## A sample -/

namespace Sample

def client : Client := ⟨⟨.str "http://node", .int 30⟩, .int 4⟩

/-- An address whose checksummed form has no capital letters. -/
def address : String := "0x27b1fdb04752bbc536007a920d24acb045561c26"

theorem parse_address : Address.parse (.str address) = .ok address :=
  eq_ok_of_toOption (by decide +kernel)

theorem names_address : Address.names address (.str address) = true := by decide +kernel

end Sample
end AssertionReplay
