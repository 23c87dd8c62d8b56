/-
Calls of an endpoint.

A call posts one request and reads its response; every failure of the endpoint
is a fault of the tool's own. Nothing is retried but a response that asks to
slow down (status 429): then the client waits, for as long as the response
says in whole seconds or else half a second, doubled with each such response
up to eight seconds, and posts the same request again, as many times as
`retries` allows.
-/
import AssertionReplay.Binary64.Numeral
import AssertionReplay.Journal

namespace AssertionReplay

open Text

structure Client where
  connection : Connection
  /-- How many times a request may be repeated, as it was given. -/
  retries : Json := .int 4

namespace Client

/-- The code for a method that the endpoint does not implement. -/
def methodNotFound : Int := -32601

def unsupportedMarkers : List Text :=
  ["method not found", "does not exist", "not available", "unknown method", "not supported"]

/-- Whether a text occurs in another. -/
def occursIn (part : List Letter) : List Letter → Bool
  | [] => part.isEmpty
  | l :: ls => part.isPrefixOf (l :: ls) || occursIn part ls

/-- Whether an endpoint's error means that it does not implement the method at all. -/
def meansUnsupported (code : Json) (message : Text) : Bool :=
  let byCode := match code.number? with
    | some n => n.eq (.int methodNotFound)
    | none => false
  byCode || unsupportedMarkers.any fun m => occursIn m.letters (lower message).letters

/-- Whether the fault says that the endpoint does not implement the method at all. -/
def isUnsupported : Fault → Bool
  | .rpc _ code message => meansUnsupported code message
  | _ => false

/-- The value of a header, whose name is compared without letter case; the last of several
counts. -/
def header? (name : Text) (headers : List (Text × Json)) : Option Json :=
  (headers.reverse.find? fun h => lower h.1 == name).map (·.2)

/-- The wait that a response asks for, if it gives one in digits. -/
def retryAfter? (r : Response) : Except Fault (Option Binary64) :=
  match header? "retry-after" r.headers with
  | none => .ok none
  | some (.str t) =>
    if !allDigits t then .ok none
    else
      match Binary64.read? t with
      | some x => .ok (some x)
      | none => .error (.value .unreadable)
  | some v => if v.isGiven then .error .noSuchPart else .ok none

/-- A half. -/
def firstBackoff : Binary64 := .ofRatio false 1 2

/-- Eight. -/
def backoffLimit : Binary64 := .ofInt 8

/-- Twice as long, up to the limit. -/
def nextBackoff (x : Binary64) : Binary64 :=
  let twice := x.mul (.ofInt 2)
  if twice.order? backoffLimit == some .gt then backoffLimit else twice

/-- The error that a response carries. -/
def errorOf (method : Text) (error : Json) : Fault :=
  match error with
  | .obj members =>
    .rpc method (Json.memberOrNull members "code")
      ((Json.obj members).memberOr "message" (.str "")).display
  | other => .rpc method .null other.display

/-- The result that a response carries, null if there is none. -/
def resultOf (method : Text) (r : Response) : Except Fault Json :=
  if 400 ≤ r.status && r.status < 600 then .error (.transport method (.status r.status))
  else
    match r.content? with
    | none => .error (.transport method .notJson)
    | some (.obj members) =>
      let error := Json.memberOrNull members "error"
      if !error.isNull then .error (errorOf method error)
      else .ok (Json.memberOrNull members "result")
    | some _ => .error (.transport method .unexpectedShape)

/-- The time allowed, as text; only a number can be written. -/
def timeoutText (timeout : Json) : Except Fault String :=
  match timeout, timeout.number? with
  | _, some n =>
    match n.toBinary64? with
    | some x => .ok x.general
    | none => .error .outOfRange
  | .str _, none => .error (.value .unreadable)
  | _, none => .error .mistyped

/-- Posts a request, and again while the response asks to slow down and `left` repetitions are
left. -/
def exchange (connection : Connection) (request : Request) :
    (left : Nat) → (backoff : Binary64) → Act Json
  | left, backoff => do
    match ← Act.post connection request with
    | .timeout => throw (.transport request.method (.timedOut (← timeoutText connection.timeout)))
    | .failure reason => throw (.transport request.method (.failed reason))
    | .raised fault => throw fault
    | .response r =>
      match left with
      | left + 1 =>
        if r.status == 429 then
          let delay := (← retryAfter? r).getD backoff
          Act.log .debug ("rate limited on " ++ request.method ++ ", sleeping " ++
            delay.fixed 1 ++ "s")
          Act.sleep delay
          exchange connection request left (nextBackoff backoff)
        else resultOf request.method r
      | 0 => resultOf request.method r

/-- How many times a request may be repeated, which must be a whole number. -/
def repetitions (c : Client) : Except Fault Int :=
  match c.retries.number?.bind Number.index? with
  | some n => .ok n
  | none => .error .mistyped

/-- Calls a method; parameters that are not given are an empty list. -/
def call (c : Client) (method : Text) (params : Json) : Act Json := do
  let left ← c.repetitions
  if left < 0 then throw (.transport method .rateLimited)
  exchange c.connection ⟨method, params.orElse (.arr [])⟩ left.toNat firstBackoff

/-! ## Methods -/

def callTracer : Json := .obj [("tracer", .str "callTracer")]

def blockByNumber (c : Client) (number full : Json) : Act Json := do
  let n ← Field.blockHex number
  c.call "eth_getBlockByNumber" (.arr [.str n, full])

def transactionByHash (c : Client) (hash : Json) : Act Json :=
  c.call "eth_getTransactionByHash" (.arr [hash])

def transactionReceipt (c : Client) (hash : Json) : Act Json :=
  c.call "eth_getTransactionReceipt" (.arr [hash])

def balance (c : Client) (address block : Json) : Act Int := do
  let n ← Field.blockHex block
  match (← c.call "eth_getBalance" (.arr [address, .str n])).orElse (.str "0x0") with
  | .str t => Field.int 16 t
  | _ => throw .mistyped

/-- The traces of the calls of an address in a range of blocks. -/
def traceFilter (c : Client) (first last address : Json) : Act Json := do
  let a ← Field.blockHex first
  let b ← Field.blockHex last
  let filter := .obj [("fromBlock", .str a), ("toBlock", .str b), ("toAddress", .arr [address])]
  return (← c.call "trace_filter" (.arr [filter])).orElse (.arr [])

def traceBlock (c : Client) (number : Json) : Act Json := do
  let n ← Field.blockHex number
  return (← c.call "debug_traceBlockByNumber" (.arr [.str n, callTracer])).orElse (.arr [])

def traceTransaction (c : Client) (hash : Json) : Act Json := do
  return (← c.call "debug_traceTransaction" (.arr [hash, callTracer])).orElse (.obj [])

end Client
end AssertionReplay
