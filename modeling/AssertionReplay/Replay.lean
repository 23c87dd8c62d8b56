/-
Replaying one transaction with the assertion attached.

A pass takes a fresh fork, lowers the base fee to what the sender can afford,
and executes the transaction; the first pass also attaches the assertion, and
is the one that counts. A violation is replayed a second time without the
assertion and with tracing, for its trace alone (`retrace`).
-/
import AssertionReplay.Config
import AssertionReplay.Revert
import AssertionReplay.Verdict

namespace AssertionReplay

open Text

namespace Record

/-- The gas limit of a replay where the record has none. -/
def defaultGasLimit : Int := Int.pow 2 24

/-- The limit of the fee if there is one, else the gas price. -/
def effectiveGasPrice (r : Record) : Quantity :=
  if r.maxFee.toInt != 0 then r.maxFee else r.gasPrice

def effectiveGasLimit (r : Record) : Quantity :=
  if r.gasLimit.toInt != 0 then r.gasLimit else .int defaultGasLimit

/-- The call that executes the transaction as it was sent. -/
def execution (r : Record) (traced : Bool) : Execution where
  sender := r.sender
  recipient := r.recipient
  value := r.value
  data := r.data
  gasLimit := r.effectiveGasLimit
  gasPrice := r.effectiveGasPrice
  traced := traced

end Record

namespace Replay

/-- Takes the state for a record: right before its transaction, or at the start of its block. -/
def fork (c : Config) (r : Record) : Act Unit :=
  if c.forkByHash.isGiven then Act.host (.forkByTransaction r.hash)
  else Act.host (.forkByBlock r.block)

def attach (c : Config) : Act Unit := do
  let code ← c.creationCode
  Act.host (.attach c.target code c.selector)

/-- Lowers the base fee to what the sender can pay for all the gas. -/
def capBaseFee (r : Record) : Act Unit := do
  let balance : Int ← Act.host (.balanceOf r.sender)
  let affordable := balance.fdiv r.effectiveGasLimit.toInt
  let fee : Int ← Act.host .baseFee
  if affordable < fee then
    Act.log .debug ("capping base fee " ++ decimal fee ++ " -> " ++ decimal affordable ++ " for " ++
      r.hash)
    Act.host (.setBaseFee affordable)

def execute (r : Record) (traced : Bool) : Act CallResult :=
  Act.host (.execute (r.execution traced))

/-- The pass with the assertion. -/
def assertedPass (c : Config) (r : Record) : Act CallResult := do
  fork c r
  attach c
  capBaseFee r
  execute r false

/-- The pass without the assertion and with tracing. -/
def tracedPass (c : Config) (r : Record) : Act CallResult := do
  fork c r
  capBaseFee r
  execute r true

/-- Replays a violation for its trace. -/
def retrace (c : Config) (r : Record) : Act Unit := do
  Act.log .info ("Replaying " ++ r.hash ++ " with tracing for debugging")
  match ← (tracedPass c r).attempt with
  | .error e => Act.logFault .warning ("Traced replay of " ++ r.hash ++ " failed: ") e
  | .ok result =>
    Act.log .info ("Traced replay of " ++ r.hash ++
      (if result.success then " succeeded" else " reverted"))

/-- The verdict on a pass that could not be finished. -/
def unfinished (r : Record) (e : Fault) : Act Verdict := do
  if e.isOwn then
    Act.logFault .error ("Replay of " ++ r.hash ++ " could not run: ") e
    return ⟨.unknownError, e.text⟩
  Act.log .error ("Assertion host failed on " ++ r.hash)
  return ⟨.unknownError, e.label⟩

/-- The message of an execution, empty if it succeeded. -/
def messageOf (result : CallResult) : Except Fault Text :=
  if result.success then .ok "" else (Revert.reason result.data).map .ofString

/-- Replays a record and judges it. -/
def validate (c : Config) (classify : Classifier) (r : Record) : Act Verdict := do
  match ← (assertedPass c r).attempt with
  | .error e => unfinished r e
  | .ok result =>
    let verdict := classify result.success (← messageOf result)
    if verdict.isViolation && c.traceFailures.isGiven then retrace c r
    return verdict

end Replay
end AssertionReplay
