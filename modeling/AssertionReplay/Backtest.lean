/-
A whole backtest: fetch the transactions that touched the target, replay them
one after another in chain order, and report.
-/
import AssertionReplay.Fetch.Range
import AssertionReplay.Replay
import AssertionReplay.Tally

namespace AssertionReplay.Backtest

open Text

/-- The client of the endpoint that the parameters name. -/
def clientOf (c : Config) : Client :=
  { connection := ⟨c.url, c.timeout.toJson⟩ }

/-- The fetcher that the parameters ask for. -/
def fetcherOf (client : Client) (c : Config) : Except Fault Fetcher :=
  Fetcher.create client (.str c.target) c.batchSize.toJson c.concurrency.toJson c.detectInner.isGiven
    false none false

/-- Fetches the records of the range that the parameters name, from the endpoint of a client. -/
def fetchRecordsFrom (client : Client) (c : Config) : Act (List Record) := do
  let f ← fetcherOf client c
  let fetched ← f.fetch (← c.startBlock).toJson c.endBlock.toJson
  return fetched.records

/-- Fetches the records from the endpoint that the parameters name. -/
def fetchRecords (c : Config) : Act (List Record) :=
  fetchRecordsFrom (clientOf c) c

/-- Replays the records from a position on and counts the verdicts. -/
def replayAll (c : Config) (classify : Classifier) (total : Nat) :
    (position : Nat) → (tally : Tally) → List Record → Act Tally
  | _, tally, [] => return tally
  | position, tally, r :: rest => do
    let verdict ← Replay.validate c classify r
    let tally := tally.add r verdict
    let line ← verdict.describe r
    Act.log (if verdict.isViolation then .error else .info)
      ("(" ++ decimal position ++ "/" ++ decimal total ++ ") " ++ line)
    replayAll c classify total (position + 1) tally rest

/-- Backtests the given records, or those that are fetched if none are given. -/
def run (c : Config) (classify : Classifier) (records? : Option (List Record)) : Act Tally := do
  let start ← c.startBlock
  Act.logWritten .info none do
    return "Backtesting " ++ c.target ++ " over blocks " ++ (← Field.numeral start.toJson) ++ " to " ++
      (← Field.numeral c.endBlock.toJson)
  let records ← match records? with
    | some rs => Act.pure rs
    | none => fetchRecords c
  let tally ← replayAll c classify records.length 1 { total := records.length } records
  tally.logSummary
  return tally

end AssertionReplay.Backtest
