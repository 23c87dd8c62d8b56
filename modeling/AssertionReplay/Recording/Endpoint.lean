/-
Endpoints that answer from a recording.

A rule names a method, and parameters if it is for those only, and lists its
replies. A request is answered by the first rule that it fits: the k-th
request that came to the rule gets its k-th reply, and the last reply is
repeated. A request that fits no rule is told that the method does not exist.
-/
import AssertionReplay.Client
import AssertionReplay.Json.Parser

namespace AssertionReplay.Recording

structure ReplyRule where
  method : Text
  params? : Option Json
  replies : List Reply

/-- Whether a request is one that the rule is for. -/
def ReplyRule.fits (rule : ReplyRule) (r : Request) : Bool :=
  rule.method == r.method &&
    match rule.params? with
    | some params => params.same r.params
    | none => true

/-- The response of an endpoint to a request that it understood. -/
def responseOf (members : List (Text × Json)) : Response where
  status := 200
  headers := []
  content? := some (.obj (("jsonrpc", .str "2.0") :: ("id", .int 1) :: members))

/-- The response to a method that does not exist. -/
def unknownMethod (method : Text) : Reply :=
  .response (responseOf [("error", .obj [
    ("code", .int Client.methodNotFound),
    ("message", .str ("the method " ++ method ++ " does not exist/is not available"))])])

/-- The k-th element, or the last one if there are fewer. -/
def nthOrLast {α : Type} : (k : Nat) → List α → Option α
  | _, [] => none
  | _, [x] => some x
  | 0, x :: _ => some x
  | k + 1, _ :: rest => nthOrLast k rest

/-- Answers a request after the given ones. -/
def answer (rules : List ReplyRule) (past : List Request) (r : Request) : Reply :=
  match rules.findIdx? (·.fits r) with
  | none => unknownMethod r.method
  | some i =>
    let earlier := past.countP fun p => rules.findIdx? (·.fits p) == some i
    match rules[i]?.bind fun rule => nthOrLast earlier rule.replies with
    | some reply => reply
    | none => unknownMethod r.method

/-! ## Recordings as data -/

def headersOf (v : Json) : List (Text × Json) :=
  match v with
  | .obj members => members
  | _ => []

/-- A recorded reply: a body with its status and headers, a time-out, a failure of the transport, or
the result or error of a call. -/
def replyOf (v : Json) : Reply :=
  match v.member? "body", v.member? "timeout", v.member? "failure", v with
  | some (.str body), _, _, _ =>
    let status := match v.member? "status" with
      | some (.int n) => n
      | _ => 200
    let headers := headersOf (v.memberOr "headers" .null)
    .response ⟨status, headers, Json.parse? body⟩
  | _, some (.bool true), _, _ => .timeout
  | _, _, some (.str reason), _ => .failure reason
  | _, _, _, .obj members => .response (responseOf members)
  | _, _, _, _ => .response (responseOf [])

/-- A recorded rule; none if it has no method. -/
def ruleOf? (v : Json) : Option ReplyRule :=
  match v.member? "method", v.member? "replies" with
  | some (.str method), some (.arr replies) =>
    some ⟨method, v.member? "params", replies.map replyOf⟩
  | _, _ => none

/-- A recording: a list of rules. -/
def rulesOf? (v : Json) : Option (List ReplyRule) :=
  match v with
  | .arr rules => rules.mapM ruleOf?
  | _ => none

end AssertionReplay.Recording
