/-
Which way of tracing an endpoint supports.

Each way has a probe that makes one real request and reports how it went. The
probes are ranked: `Probe.all` runs every one, and `Probe.select` stops at the
first that is supported. A probe whose input is missing is skipped.
-/
import AssertionReplay.Client

namespace AssertionReplay

open Text

/-- A way of finding the calls of a contract. -/
inductive Capability where
  | directCallsOnly
  | traceTransaction
  | traceBlock
  | traceFilter
  deriving DecidableEq

namespace Capability

/-- The higher, the better. -/
def rank : Capability → Nat
  | directCallsOnly => 0
  | traceTransaction => 1
  | traceBlock => 2
  | traceFilter => 3

/-- The method that it rests on. -/
def method : Capability → String
  | directCallsOnly => ""
  | traceTransaction => "debug_traceTransaction"
  | traceBlock => "debug_traceBlockByNumber"
  | traceFilter => "trace_filter"

end Capability

inductive ProbeStatus where
  | supported
  | unsupported
  | error
  | skipped
  deriving DecidableEq

def ProbeStatus.name : ProbeStatus → String
  | supported => "supported"
  | unsupported => "unsupported"
  | error => "error"
  | skipped => "skipped"

structure ProbeReport where
  capability : Capability
  status : ProbeStatus
  detail : Text := ""

namespace ProbeReport

def render (r : ProbeReport) : Text :=
  match r.status with
  | .error => r.capability.method ++ ": error (see response for details)"
  | .skipped => r.capability.method ++ ": skipped (" ++ r.detail ++ ")"
  | status => r.capability.method ++ ": " ++ status.name

end ProbeReport

namespace Probe

/-- Reports how a request went. -/
def classify (capability : Capability) (request : Act Json) : Act ProbeReport := do
  match ← request.attemptOwn with
  | .ok _ => return ⟨capability, .supported, ""⟩
  | .error e =>
    return ⟨capability, if Client.isUnsupported e then .unsupported else .error, e.text⟩

/-- The first of the transactions in a block; none if it has none. -/
def firstTransaction? (block : Json) : Except Fault (Option Json) := do
  let transactions ←
    if !block.isGiven then .ok .null
    else
      match block with
      | .obj members => .ok (Json.memberOrNull members "transactions")
      | _ => .error .noSuchPart
  if !transactions.isGiven then return none
  match transactions with
  | .arr (first :: _) => return some first
  | .str t => return some (.str (t.take 1))
  | .obj _ => .error .missingMember
  | _ => .error .mistyped

/-- The hash of a transaction that is given as an object or as its hash. -/
def hashOf (transaction : Json) : Except Fault Json :=
  match transaction with
  | .obj _ =>
    match transaction.member? "hash" with
    | some hash => .ok hash
    | none => .error .missingMember
  | hash => .ok hash

/-- How many blocks are searched for a transaction. -/
def sampleLookback : Int := 5

/-- The number `i` below a block that must be given as a number. -/
def blockBelow (block : Json) (i : Nat) : Except Fault Number :=
  match block.number? with
  | none => .error .mistyped
  | some n =>
    match n.sub? (.int i) with
    | some below => .ok below
    | none => .error .outOfRange

/-- Searches blocks `block - i`, `block - i - 1`, … for a transaction; `left` of them are left. -/
def sampleFrom (client : Client) (block : Json) : (left i : Nat) → Act Json
  | 0, _ => return .null
  | left + 1, i => do
    let n ← blockBelow block i
    if n.lt (.int 0) then return .null
    match ← (client.blockByNumber n.toJson (.bool false)).attemptOwn with
    | .error e =>
      Act.logWritten .debug (some e) do
        return "sample tx lookup failed for block " ++ (← Field.numeral n.toJson) ++ ": "
      sampleFrom client block left (i + 1)
    | .ok found =>
      match ← firstTransaction? found with
      | some transaction => hashOf transaction
      | none => sampleFrom client block left (i + 1)

/-- The hash of the first transaction in the block or in those just before it, null if there is
none. How many blocks are searched must be a whole number. -/
def sampleTransaction (client : Client) (block lookback : Json) : Act Json :=
  match lookback.number?.bind Number.index? with
  | some n => sampleFrom client block n.toNat 0
  | none => throw .mistyped

def traceFilter (client : Client) (block target : Json) : Act ProbeReport := do
  if !target.isGiven then return ⟨.traceFilter, .skipped, "no --target-contract provided"⟩
  classify .traceFilter (client.traceFilter block block target)

def traceBlock (client : Client) (block : Json) : Act ProbeReport :=
  classify .traceBlock (client.traceBlock block)

def traceTransaction (client : Client) (block : Json) : Act ProbeReport := do
  let hash ← sampleTransaction client block (.int sampleLookback)
  if hash.isNull then return ⟨.traceTransaction, .skipped, "no tx hash found in recent blocks"⟩
  classify .traceTransaction (client.traceTransaction hash)

/-- The probes, best way first. -/
def ranked (client : Client) (block target : Json) : List (Act ProbeReport) :=
  [traceFilter client block target, traceBlock client block, traceTransaction client block]

def all (client : Client) (block target : Json) : Act (List ProbeReport) :=
  Act.mapEach (ranked client block target) id

/-- The way of the first probe that reports it supported. -/
def firstSupported : List (Act ProbeReport) → Act Capability
  | [] => do
    Act.log .warning
      "No trace method available; internal calls to the target will not be detected"
    return .directCallsOnly
  | probe :: rest => do
    let report ← probe
    if report.status == .supported then
      Act.log .info ("Using " ++ report.capability.method ++ " for internal call detection")
      return report.capability
    Act.log .info (report.capability.method ++ " not usable: " ++ report.status.name)
    if !report.detail.isEmpty then Act.log .debug report.detail
    firstSupported rest

def select (client : Client) (block target : Json) : Act Capability :=
  firstSupported (ranked client block target)

end Probe
end AssertionReplay
