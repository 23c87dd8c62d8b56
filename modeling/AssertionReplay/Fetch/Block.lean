/-
Fetching one block.

A block's result holds its transactions and the records of those that touch
the target, by hash: first the direct calls, then those that a trace adds. A
block that cannot be read is logged and its result is marked; a trace that
fails costs only what it would have added.
-/
import AssertionReplay.Detection

namespace AssertionReplay

open Text

/-- What was fetched of one block. -/
structure BlockResult where
  block : Int
  ok : Bool
  transactions : List Json := []
  /-- The records that touch the target, by hash. -/
  matched : OrderedMap Record := []

namespace BlockResult

/-- The result of a block that could not be read. -/
def failed (block : Int) : BlockResult := { block, ok := false }

end BlockResult

/-- Fetches the transactions that touch a target. -/
structure Fetcher where
  client : Client
  target : String
  batchSize : Number
  concurrency : Number
  receiptFallback : Bool
  showProgress : Bool
  /-- The way of tracing, once it is fixed. -/
  chosen? : Option Capability

namespace Fetcher

/-- What a block holds: its number, its transactions and the records of the direct calls. -/
structure Content where
  block : Int
  transactions : List Json
  direct : OrderedMap Record

def isObject : Json → Bool
  | .obj _ => true
  | _ => false

/-- The transaction objects of a block; what is no object is left out. -/
def transactionsOf (v : Json) : Except Fault (List Json) :=
  match v with
  | .arr items => .ok (items.filter isObject)
  | .bool true => .error .mistyped
  | .int n => if n == 0 then .ok [] else .error .mistyped
  | .float x => if x.isZero then .ok [] else .error .mistyped
  | _ => .ok []

/-- The records of the transactions whose recipient is the target. -/
def directCalls (target : String) (block : Int) :
    (found : OrderedMap Record) → List Json → Except Fault (OrderedMap Record)
  | found, [] => .ok found
  | found, transaction :: rest => do
    if ← Address.same (← Field.member transaction "to") (.str target) then
      let r ← Record.ofTransaction transaction (some (.int block))
      directCalls target block (found.insert r.hash r) rest
    else directCalls target block found rest

/-- Reads a block that was asked for by number. The number in the block itself counts, if it has
one. -/
def readBlock (target : String) (asked : Int) (v : Json) : Except Fault Content := do
  let number ← Field.member v "number"
  let block ← if number.isGiven then Field.hexInt number else .ok asked
  let transactions ← transactionsOf (← Field.member v "transactions")
  let direct ← directCalls target block [] transactions
  return { block, transactions, direct }

/-- Asks for a block; none if there is no such block. -/
def contentOf (f : Fetcher) (block : Int) : Act (Option Content) := do
  let v ← f.client.blockByNumber (.int block) (.bool true)
  if !v.isGiven then
    Act.log .warning ("No block data for block " ++ decimal block ++ ", skipped")
    return none
  return some (← readBlock f.target block v)

/-- The transactions with a hash among the given ones, by hash. -/
def withHashIn (hashes : List Text) (transactions : List Json) : OrderedMap Json :=
  transactions.foldl (fun found transaction =>
    match transaction.member? "hash" with
    | some (.str hash) =>
      if hashes.contains (lower hash) then found.insert (lower hash) transaction else found
    | _ => found) []

/-- The transactions of a block that reach the target through an inner call. -/
def innerCalls (f : Fetcher) (strategy : Strategy) (block : Int) (transactions : List Json) :
    Act (OrderedMap Json) := do
  match ← (strategy.blockHashes f.client (.str f.target) (.int block) transactions).attempt with
  | .error e =>
    Act.logWritten .warning (some e) do
      return "Internal call detection failed for block " ++ (← Field.numeral (.int block)) ++
        ", direct calls kept: "
    return []
  | .ok hashes => return withHashIn hashes transactions

/-- Adds the records of transactions whose hashes are not there yet. -/
def addInner (block : Int) : (found : OrderedMap Record) → List (Text × Json) →
    Act (OrderedMap Record)
  | found, [] => return found
  | found, (hash, transaction) :: rest => do
    if found.contains hash then addInner block found rest
    else
      match Record.ofTransaction transaction (some (.int block)) with
      | .ok r => addInner block (found.insert hash r) rest
      | .error e =>
        Act.logWritten .warning (some e) do
          return "Malformed transaction " ++ hash ++ " in block " ++
            (← Field.numeral (.int block)) ++ ", skipped: "
        addInner block found rest

def fetchBlock (f : Fetcher) (strategy : Strategy) (block : Int) : Act BlockResult := do
  match ← (f.contentOf block).attempt with
  | .error e =>
    Act.logFault .warning ("Failed to fetch block " ++ decimal block ++ ", skipped: ") e
    return .failed block
  | .ok none => return .failed block
  | .ok (some content) =>
    let inner ← f.innerCalls strategy content.block content.transactions
    let matched ← addInner content.block content.direct inner
    if !matched.isEmpty then
      Act.logWritten .info none do
        return "  Block " ++ (← Field.numeral (.int content.block)) ++ ": found " ++
          decimal matched.length ++ " transactions"
    return { block, ok := true, transactions := content.transactions, matched }

end Fetcher
end AssertionReplay
