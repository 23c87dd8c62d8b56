/-
Which transactions reach the target through an inner call.

A strategy answers for a whole range of blocks at once, or for one block from
the call trees, or the logs, of its transactions. A failing request is logged
and costs only the range, block or transaction that it was made for.
-/
import AssertionReplay.CallTree
import AssertionReplay.Capability

namespace AssertionReplay

open Text

inductive Strategy where
  /-- Inner calls are not looked for. -/
  | direct
  | traceFilter
  | traceBlock
  | traceTransaction
  /-- A log that the target emitted marks the transaction. -/
  | receiptLogs
  deriving DecidableEq

namespace Strategy

/-- The strategy for a capability; `receiptFallback` asks for logs where nothing can be traced. -/
def of (capability : Capability) (receiptFallback : Bool) : Strategy :=
  match capability with
  | .traceFilter => traceFilter
  | .traceBlock => traceBlock
  | .traceTransaction => traceTransaction
  | .directCallsOnly => if receiptFallback then receiptLogs else direct

/-- Adds a hash that is not there yet. -/
def addHash (hashes : List Text) (hash : Text) : List Text :=
  if hashes.contains hash then hashes else hashes ++ [hash]

/-- The hash of the transaction that a trace tells to have called the target, if it does. -/
def traceHash? (target : Json) (trace : Json) : Except Fault (Option Text) := do
  match trace with
  | .obj members =>
    match Json.memberOrNull members "transactionHash" with
    | .str hash =>
      if hash.isEmpty then return none
      let action := Json.memberOrNull members "action"
      let recipient ← if action.isGiven then Field.member action "to" else .ok .null
      if ← Address.same recipient target then return some (lower hash)
      return none
    | _ => return none
  | _ => return none

/-- The hashes that traces tell to have called the target. -/
def traceHashes (target : Json) (hashes : List Text) : List Json → Except Fault (List Text)
  | [] => .ok hashes
  | trace :: rest => do
    match ← traceHash? target trace with
    | some hash => traceHashes target (addHash hashes hash) rest
    | none => traceHashes target hashes rest

/-- The transactions in a range of blocks that reach the target, for the strategy that answers for a
range. -/
def batchHashes (s : Strategy) (client : Client) (target : Json) (first last : Json) :
    Act (List Text) := do
  match s with
  | traceFilter =>
    match ← (client.traceFilter first last target).attemptOwn with
    | .error e =>
      Act.logWritten .warning (some e) do
        return "trace_filter failed for blocks " ++ (← Field.numeral first) ++ "-" ++
          (← Field.numeral last) ++ ", internal calls skipped: "
      return []
    | .ok (.arr traces) => traceHashes target [] traces
    | .ok _ => return []
  | _ => return []

/-- The transaction that a frame belongs to: the one that it names, else the one at its position. -/
def frameHash? (frame : Json) (transactions : List Json) (position : Nat) :
    Except Fault (Option Text) := do
  let named := ((frame.member? "txHash").getD .null).orElse
    ((frame.member? "transactionHash").getD .null)
  let byPosition : Except Fault (Option Text) := do
    match transactions[position]? with
    | none => return none
    | some transaction =>
      match ← Field.member transaction "hash" with
      | .str hash => return if (lower hash).isEmpty then none else some (lower hash)
      | _ => return none
  match named with
  | .str hash => if hash.isEmpty then byPosition else return some (lower hash)
  | _ => byPosition

/-- Where a frame stands. -/
def framePlace (block : Json) (position : Nat) : Except Fault String := do
  return "block " ++ (← Field.numeral block) ++ " position " ++ decimal position

/-- Goes through the frames from a position on. -/
def frameHashes (target : Json) (block : Json) (transactions : List Json) :
    (position : Nat) → (hashes : List Text) → List Json → Act (List Text)
  | _, hashes, [] => return hashes
  | position, hashes, frame :: rest => do
    match frame with
    | .obj members =>
      let error := Json.memberOrNull members "error"
      if error.isGiven then
        Act.logWritten .warning none do
          return "trace error in " ++ (← framePlace block position) ++ ": " ++ error.display
        frameHashes target block transactions (position + 1) hashes rest
      else if ← CallTree.reaches target (Json.memberOrNull members "result") then
        match ← frameHash? frame transactions position with
        | some hash =>
          frameHashes target block transactions (position + 1) (addHash hashes hash) rest
        | none => frameHashes target block transactions (position + 1) hashes rest
      else frameHashes target block transactions (position + 1) hashes rest
    | _ =>
      Act.logWritten .warning none do
        return "malformed trace frame in " ++ (← framePlace block position) ++ ", skipped"
      frameHashes target block transactions (position + 1) hashes rest

def traceBlockHashes (client : Client) (target : Json) (block : Json)
    (transactions : List Json) : Act (List Text) := do
  match ← (client.traceBlock block).attemptOwn with
  | .error e =>
    Act.logWritten .warning (some e) do
      return "debug_traceBlockByNumber failed for block " ++ (← Field.numeral block) ++
        ", internal calls skipped: "
    return []
  | .ok (.arr frames) => frameHashes target block transactions 0 [] frames
  | .ok other =>
    Act.logWritten .warning none do
      return "debug_traceBlockByNumber returned " ++ other.kindName ++ " for block " ++
        (← Field.numeral block) ++ ", internal calls skipped"
    return []

/-- The hash of a transaction that is not a direct call; none if it is one, or has no hash. -/
def indirectHash? (target : Json) (transaction : Json) : Except Fault (Option Text) := do
  let hash ← Address.lowered ((← Field.member transaction "hash").orElse (.str ""))
  if hash.isEmpty then return none
  if ← Address.same (← Field.member transaction "to") target then return none
  return some hash

/-- The hashes of the transactions that are not direct calls and that pass a test. -/
def indirectHashes (target : Json) (test : Text → Act Bool) :
    (hashes : List Text) → List Json → Act (List Text)
  | hashes, [] => return hashes
  | hashes, transaction :: rest => do
    match ← indirectHash? target transaction with
    | none => indirectHashes target test hashes rest
    | some hash =>
      if ← test hash then indirectHashes target test (addHash hashes hash) rest
      else indirectHashes target test hashes rest

/-- Whether the call tree of a transaction reaches the target. -/
def traceReaches (client : Client) (target : Json) (hash : Text) : Act Bool := do
  match ← (client.traceTransaction (.str hash)).attemptOwn with
  | .error e =>
    Act.logFault .warning ("debug_traceTransaction failed for " ++ hash ++ ", skipped: ") e
    return false
  | .ok root => CallTree.reaches target root

/-- Whether one of the logs was emitted by the target. -/
def anyEmitted (target : Json) : List Json → Except Fault Bool
  | [] => .ok false
  | entry :: rest => do
    if ← Address.same (← Field.member entry "address") target then return true
    anyEmitted target rest

/-- Whether a receipt holds a log that the target emitted. -/
def receiptTouches (target : Json) (receipt : Json) : Except Fault Bool := do
  let logs ← Field.member (receipt.orElse (.obj [])) "logs"
  if !logs.isGiven then return false
  match logs with
  | .arr entries => anyEmitted target entries
  | .str _ | .obj _ => .error .noSuchPart
  | _ => .error .mistyped

def receiptReaches (client : Client) (target : Json) (hash : Text) : Act Bool := do
  match ← (client.transactionReceipt (.str hash)).attemptOwn with
  | .error e =>
    Act.logFault .warning ("receipt fetch failed for " ++ hash ++ ", skipped: ") e
    return false
  | .ok receipt => receiptTouches target receipt

/-- The transactions of a block that reach the target, for the strategies that answer for a
block. -/
def blockHashes (s : Strategy) (client : Client) (target : Json) (block : Json)
    (transactions : List Json) : Act (List Text) :=
  match s with
  | traceBlock => traceBlockHashes client target block transactions
  | traceTransaction => indirectHashes target (traceReaches client target) [] transactions
  | receiptLogs => indirectHashes target (receiptReaches client target) [] transactions
  | _ => return []

end Strategy
end AssertionReplay
