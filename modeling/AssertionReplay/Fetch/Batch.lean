/-
Fetching a batch of consecutive blocks.

The blocks are fetched in the order that the workers take them, and their
results are put back into block order. A trace of the whole batch is merged
afterwards: a hash that no block of the batch has yet is looked for among the
fetched transactions, and asked for by hash if it is not among them.
-/
import AssertionReplay.Fetch.Block

namespace AssertionReplay

open Text

namespace Fetcher

/-- The `count` blocks from `first` on. -/
def blocksFrom (first : Int) : (count : Nat) → List Int
  | 0 => []
  | count + 1 => first :: blocksFrom (first + 1) count

/-- The blocks from `first` to `last`. -/
def blocksBetween (first last : Int) : List Int :=
  blocksFrom first (last + 1 - first).toNat

/-- The results in the order of the blocks. -/
def inBlockOrder (blocks : List Int) (done : List (Int × BlockResult)) : List BlockResult :=
  blocks.filterMap fun n => done.lookup n

def fetchBlocks (f : Fetcher) (strategy : Strategy) (blocks : List Int) :
    Act (List BlockResult) := do
  let schedule := (← Act.outside).schedule
  let done ← Act.mapEach (schedule.order blocks) fun n => do
    return (n, ← f.fetchBlock strategy n)
  return inBlockOrder blocks done

/-- Where a hash was fetched last: the block it was asked for under, and the transaction. -/
def fetchedUnder? (hash : Text) (results : List BlockResult) : Option (Int × Json) :=
  (results.flatMap fun r => r.transactions.map fun t => (r.block, t)).reverse.find? fun p =>
    match p.2.member? "hash" with
    | some (.str h) => lower h == hash
    | _ => false

/-- Gives the result of a block a record. -/
def putRecord (results : List BlockResult) (block : Int) (hash : Text) (r : Record) :
    List BlockResult :=
  results.map fun b =>
    if b.block == block then { b with matched := b.matched.insert hash r } else b

/-- Asks for a transaction by its hash. -/
def resolve (f : Fetcher) (hash : Text) : Act (Option Record) := do
  let lookUp : Act (Option Record) := do
    let transaction ← f.client.transactionByHash (.str hash)
    if !transaction.isGiven then
      Act.log .warning ("Transaction " ++ hash ++ " not found, skipped")
      return none
    return some (← Record.ofTransaction transaction none)
  match ← lookUp.attempt with
  | .ok found => return found
  | .error e =>
    Act.logFault .warning ("Failed to fetch transaction " ++ hash ++ ", skipped: ") e
    return none

/-- Finds the place of a hash that a trace of the batch names. -/
def placeHash (f : Fetcher) (results : List BlockResult) (hash : Text) :
    Act (List BlockResult) := do
  if results.any fun r => r.matched.contains hash then return results
  match fetchedUnder? hash results with
  | some (block, transaction) =>
    match Record.ofTransaction transaction (some (.int block)) with
    | .ok r => return putRecord results block hash r
    | .error e =>
      Act.logFault .warning ("Malformed transaction " ++ hash ++ ", skipped: ") e
      return results
  | none =>
    match ← f.resolve hash with
    | some r => return putRecord results r.block.toInt hash r
    | none => return results

def placeHashes (f : Fetcher) : (results : List BlockResult) → List Text →
    Act (List BlockResult)
  | results, [] => return results
  | results, hash :: rest => do f.placeHashes (← f.placeHash results hash) rest

/-- Merges a trace of the whole batch into the results of its blocks. -/
def mergeTrace (f : Fetcher) (strategy : Strategy) (results : List BlockResult)
    (first last : Int) : Act (List BlockResult) := do
  match ← (strategy.batchHashes f.client (.str f.target) (.int first) (.int last)).attempt with
  | .error e =>
    Act.logFault .warning ("Internal call detection failed for blocks " ++ decimal first ++ "-" ++
      decimal last ++ ", direct calls kept: ") e
    return results
  | .ok hashes => f.placeHashes results (Text.sorted hashes)

def fetchBatch (f : Fetcher) (strategy : Strategy) (first last : Int) : Act (List BlockResult) := do
  let results ← f.fetchBlocks strategy (blocksBetween first last)
  if strategy == .traceFilter then f.mergeTrace strategy results first last else return results

end Fetcher
end AssertionReplay
