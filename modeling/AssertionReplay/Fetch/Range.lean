/-
Fetching a range of blocks.

The range is cut into batches (`batches`), which are fetched one after
another. A hash that several blocks have counts once, where it comes first,
and the records are returned in chain order (`mergedRecords`). Which way of
tracing is used is settled by the first fetch that needs it, and kept.
-/
import AssertionReplay.Fetch.Batch
import AssertionReplay.Progress

namespace AssertionReplay

open Text

/-- What was fetched of a range of blocks. -/
structure Fetched where
  records : List Record
  capability : Capability
  blocks : List BlockResult
  /-- In seconds. -/
  duration : Binary64

namespace Fetched

def blocksProcessed (r : Fetched) : Nat := r.blocks.countP (·.ok)

def blocksFailed (r : Fetched) : Nat := r.blocks.countP fun b => !b.ok

end Fetched

namespace Fetcher

/-- Refuses a range with a negative bound or with its bounds reversed. -/
def checkRange (first last : Number) : Except Fault Unit :=
  if first.lt (.int 0) || last.lt (.int 0) then .error (.config .negativeBlock)
  else if last.lt first then .error (.config .reversedRange)
  else .ok ()

/-- Refuses bounds that are not both numbers; the second is looked at only if the first is not
negative. -/
def rangeOf (first last : Json) : Except Fault (Number × Number) :=
  match first.number?, last.number? with
  | some a, some b => (checkRange a b).map fun _ => (a, b)
  | some a, none =>
    if a.lt (.int 0) then .error (.config .negativeBlock) else .error .mistyped
  | none, _ => .error .mistyped

/-- Consecutive batches of `size` blocks from `first` on, the last one cut at `last`. -/
def batches (size : Nat) (first last : Int) : List (Int × Int) :=
  if _h : first ≤ last ∧ 0 < size then
    (first, min (first + size - 1) last) :: batches size (first + size) last
  else []
  termination_by (last + 1 - first).toNat
  decreasing_by omega

/-- The records of all blocks, each hash where it comes first. -/
def firstOccurrences (blocks : List BlockResult) : List Record :=
  ((blocks.flatMap (·.matched)).foldl
    (fun (found : OrderedMap Record) p => if found.contains p.1 then found else found ++ [p])
    []).map (·.2)

def mergedRecords (blocks : List BlockResult) : List Record :=
  Record.inChainOrder (firstOccurrences blocks)

/-- Makes a fetcher. Without `detectInner` the way of tracing is fixed to none. -/
def create (client : Client) (target batchSize concurrency : Json) (detectInner : Bool)
    (receiptFallback : Bool) (capability? : Option Capability) (showProgress : Bool) :
    Except Fault Fetcher := do
  let batchSize ← match batchSize.number? with
    | some n => if n.lt (.int 1) then .error (.config .batchSize) else .ok n
    | none => .error .mistyped
  let concurrency ← match concurrency.number? with
    | some n => if n.lt (.int 1) then .error (.config .concurrency) else .ok n
    | none => .error .mistyped
  let address ← match Address.parse target with
    | .error (.value _) => .error (.config (.invalidTarget target))
    | result => result
  return {
    client, target := address, batchSize, concurrency, receiptFallback, showProgress
    chosen? := if detectInner then capability? else some .directCallsOnly }

/-- The way of tracing: the one that is fixed, or the best that the endpoint supports. -/
def capabilityFor (f : Fetcher) (block : Number) : Act Capability :=
  match f.chosen? with
  | some capability => return capability
  | none => Probe.select f.client block.toJson (.str f.target)

/-- Fetches the batches from a position on, and draws the progress bar after each. -/
def fetchBatches (f : Fetcher) (strategy : Strategy) :
    (position : Nat) → (progress? : Option Progress) → List (Int × Int) →
    Act (List BlockResult)
  | _, progress?, [] => do
    if progress?.isSome then Progress.close
    return []
  | position, progress?, (first, last) :: rest => do
    Act.log .debug ("Processing batch " ++ decimal position ++ ": blocks " ++ decimal first ++
      " to " ++ decimal last)
    let results ← f.fetchBatch strategy first last
    let found : Nat := results.foldl (fun found b => found + b.matched.length) 0
    if found != 0 then
      Act.log .info ("  Batch " ++ decimal position ++ ": found " ++ decimal found ++
        " transactions")
    let progress? := progress?.map fun p =>
      p.advance results.length found (results.countP fun b => !b.ok)
    if let some p := progress? then p.redraw
    return results ++ (← f.fetchBatches strategy (position + 1) progress? rest)

def logStatistics (r : Fetched) : Act Unit := do
  Act.log .info ("Fetch completed in " ++ r.duration.fixed 1 ++ "s")
  Act.log .info ("Processed " ++ decimal r.blocksProcessed ++ " blocks, found " ++
    decimal r.records.length ++ " transactions")
  if r.blocksFailed != 0 then
    Act.log .warning (decimal r.blocksFailed ++ " blocks could not be fetched and were skipped")
  if r.duration.orderInt? 0 == some .gt then
    let rate := fun n : Nat => ((Binary64.ofInt n).div r.duration).fixed 2
    Act.log .info ("Average: " ++ rate r.blocksProcessed ++ " blocks/sec, " ++
      rate r.records.length ++ " transactions/sec")

/-- How many blocks a range has. -/
def blockCount (first last : Number) : Except Fault Int :=
  match (last.sub? first).bind (·.add? (.int 1)) with
  | some n => Field.whole n.toJson
  | none => .error .outOfRange

/-- The numbers of a fetch must have whole parts; what is infinite, or no number, has none. -/
def checkWhole : List Number → Except Fault Unit
  | [] => .ok ()
  | n :: rest => do
    let _ ← Field.whole n.toJson
    checkWhole rest

/-- The line that a fetch starts with. -/
def rangeLine (f : Fetcher) (first last : Number) : Except Fault Text := do
  return "Blocks: " ++ (← Field.numeral first.toJson) ++ " to " ++
    (← Field.numeral last.toJson) ++ " (batch size: " ++ (← Field.numeral f.batchSize.toJson) ++
    ", max concurrent: " ++ (← Field.numeral f.concurrency.toJson) ++ ")"

/-- Fetches a range whose bounds are in order, with the way of tracing settled. -/
def fetchWith (f : Fetcher) (capability : Capability) (started : Binary64) (first last : Number) :
    Act Fetched := do
  let strategy := Strategy.of capability f.receiptFallback
  if capability == .directCallsOnly then
    if f.receiptFallback then
      Act.log .warning "Fetching in degraded mode: internal calls detected from receipt logs only"
    else Act.log .warning "Fetching in degraded mode: direct calls only"
  checkWhole [first, last, f.batchSize, f.concurrency]
  Act.logWritten .info none (f.rangeLine first last)
  let progress? ←
    if f.showProgress then some <$> Progress.start (← blockCount first last) 30
    else Act.pure none
  match first.index?, last.index?, f.batchSize.index? with
  | some a, some b, some size =>
    let blocks ← f.fetchBatches strategy 0 progress? (batches size.toNat a b)
    let result := {
      records := mergedRecords blocks
      capability, blocks
      duration := (← Act.now).sub started : Fetched }
    logStatistics result
    return result
  | _, _, _ => throw .mistyped

/-- Fetches a range. The fetcher that is returned has the way of tracing settled, whether the fetch
succeeds or not, unless settling it failed. -/
def run (f : Fetcher) (first last : Json) : Act (Fetcher × Except Fault Fetched) := do
  match rangeOf first last with
  | .error e => return (f, .error e)
  | .ok (a, b) =>
    let started ← Act.now
    match ← (f.capabilityFor a).attempt with
    | .error e => return (f, .error e)
    | .ok capability =>
      let settled := { f with chosen? := some capability }
      return (settled, ← (f.fetchWith capability started a b).attempt)

/-- Fetches a range. -/
def fetch (f : Fetcher) (first last : Json) : Act Fetched := do
  Act.ofExcept (← f.run first last).2

end Fetcher
end AssertionReplay
