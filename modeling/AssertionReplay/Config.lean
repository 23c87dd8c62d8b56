/-
The parameters of a backtest.

`Config.read` takes an object of fields and the environment. First it refuses
names it does not know, decodes the byte fields, and fills in what the
environment and the defaults give (`Config.fill`); then it checks every field
in a fixed order (`Config.Given.check`): the first check that fails is the
fault. What passes keeps the value it was given, except the target, which is
put into its checksummed form.
-/
import AssertionReplay.Journal

namespace AssertionReplay

open Text

namespace Blob

def isGiven : Blob → Bool
  | bytes bs => !bs.isEmpty
  | other v => v.isGiven

/-- How many elements the value has; none if it has none by its kind. -/
def length? : Blob → Option Nat
  | bytes bs => some bs.length
  | other (.arr items) => some items.length
  | other (.obj members) => some members.length
  | other (.str t) => some t.length
  | other _ => none

def kindName : Blob → String
  | bytes _ => "bytes"
  | other v => v.kindName

/-- Two values of one kind put together. -/
def join (a b : Blob) : Except Fault Blob :=
  match a, b with
  | bytes x, bytes y => .ok (bytes (x ++ y))
  | other (.arr x), other (.arr y) => .ok (other (.arr (x ++ y)))
  | other x, other y =>
    match x.number?, y.number? with
    | some m, some n =>
      match m.add? n with
      | some sum => .ok (other sum.toJson)
      | none => .error .outOfRange
    | _, _ => .error (.notJoinable x.kindName y.kindName)
  | x, y => .error (.notJoinable x.kindName y.kindName)

end Blob

structure Config where
  target : String
  endBlock : Number
  blockRange : Number
  /-- The creation code of the assertion, without its arguments. -/
  bytecode : Blob
  /-- The selector of the function that triggers the assertion. -/
  selector : Blob
  url : Json
  arguments : Blob
  forkByHash : Json
  batchSize : Number
  concurrency : Number
  timeout : Number
  detectInner : Json
  traceFailures : Json
  version : Json

namespace Config

def knownFields : List Text :=
  ["target_contract", "end_block", "block_range", "assertion_bytecode", "trigger_selector",
    "rpc_url", "constructor_args", "fork_by_tx_hash", "batch_size", "max_concurrent",
    "rpc_timeout", "detect_internal_calls", "trace_failures", "version"]

/-- The fields that have no default. -/
def requiredFields : List Text :=
  ["target_contract", "end_block", "block_range", "assertion_bytecode", "trigger_selector"]

/-- The address of the endpoint in the environment. -/
def defaultUrl (env : String → Option Text) : Option Text :=
  match env "ETH_RPC_URL" with
  | some url => if url.isEmpty then none else some url
  | none => none

/-- A whole number in the environment, or a default. -/
def setting (env : String → Option Text) (name : String) (default : Int) :
    Except ConfigFault Int :=
  match env name with
  | none => .ok default
  | some given =>
    if given.isEmpty then .ok default
    else
      match readInt? 10 given with
      | some n => .ok n
      | none => .error (.notIntegerSetting name given)

/-- A byte field: hexadecimal text is decoded, and another value is kept. -/
def blobField (name : String) (v : Json) : Except ConfigFault Blob :=
  match v with
  | .str _ =>
    match Field.bytes v with
    | .ok bs => .ok (.bytes bs)
    | .error _ => .error (.notHex name)
  | other => .ok (.other other)

/-- Refuses a field by a condition. -/
def refuseIf (condition : Bool) (fault : ε) : Except ε Unit :=
  if condition then .error fault else .ok ()

/-- A fault whose message shows a value. One that cannot be shown is a fault of its own. -/
def refusal (shown : Json) (fault : ConfigFault) : Fault :=
  if shown.isShowable then .config fault else Field.unreadable

def numberField (v : Json) : Except Fault Number :=
  match v.number? with
  | some n => .ok n
  | none => .error (.config .mistyped)

/-- A number that must not be below one. -/
def countField (v : Json) (tooSmall : Number → Fault) : Except Fault Number := do
  let n ← numberField v
  refuseIf (n.lt (.int 1)) (tooSmall n)
  return n

/-- The first version, and so far the only one. -/
def currentVersion : Int := 1

/-- The target in its checksummed form. Text that is no address and the zero address are refused as
parameters; a value that is given and no text is a fault of its own. -/
def readTarget (v : Json) : Except Fault String :=
  match Address.parse v with
  | .error (.value _) => .error (.config (.invalidTargetField v))
  | .error e => .error e
  | .ok target => if target == Address.zero then .error (.config .zeroTarget) else .ok target

def liftConfig {α : Type} : Except ConfigFault α → Except Fault α
  | .ok a => .ok a
  | .error e => .error (.config e)

/-- Names that are not known, in order. -/
def unknownNames (raw : OrderedMap Json) : List Text :=
  Text.sorted (raw.names.filter fun n => !knownFields.contains n)

/-- A field, or a setting where it is not among the fields. -/
def fieldOrSetting (env : String → Option Text) (raw : OrderedMap Json) (field : Text) (name : String)
    (default : Int) : Except ConfigFault Json :=
  match raw.get? field with
  | some v => .ok v
  | none => (setting env name default).map .int

/-- The parameters as they are given or filled in. Nothing is checked but that the byte fields are bytes. -/
structure Given where
  target : Json
  endBlock : Json
  blockRange : Json
  bytecode : Blob
  selector : Blob
  url : Json
  arguments : Blob
  forkByHash : Json
  batchSize : Json
  concurrency : Json
  timeout : Json
  detectInner : Json
  traceFailures : Json
  version : Json

/-- Takes the parameters from the fields, the environment and the defaults. -/
def fill (env : String → Option Text) (raw : OrderedMap Json) : Except ConfigFault Given := do
  refuseIf (!(unknownNames raw).isEmpty) (.unknownFields (unknownNames raw))
  let field := fun (name : Text) default => (raw.get? name).getD default
  let bytecode ← blobField "assertion_bytecode" (field "assertion_bytecode" .null)
  let arguments ← blobField "constructor_args" (field "constructor_args" (.str ""))
  let selector ← blobField "trigger_selector" (field "trigger_selector" .null)
  refuseIf (requiredFields.any fun n => !raw.contains n) .mistyped
  let batchSize ← fieldOrSetting env raw "batch_size" "FETCH_BATCH_SIZE" 20
  let concurrency ← fieldOrSetting env raw "max_concurrent" "FETCH_MAX_CONCURRENT" 10
  return {
    target := field "target_contract" .null
    endBlock := field "end_block" .null
    blockRange := field "block_range" .null
    bytecode, selector
    url := field "rpc_url" (((defaultUrl env).map Json.str).getD .null)
    arguments
    forkByHash := field "fork_by_tx_hash" (.bool true)
    batchSize, concurrency
    timeout := field "rpc_timeout" (.float (.ofInt 30))
    detectInner := field "detect_internal_calls" (.bool true)
    traceFailures := field "trace_failures" (.bool true)
    version := field "version" (.int currentVersion) }

namespace Given

def isCurrent (g : Given) : Bool :=
  match g.version.number? with
  | some n => n.eq (.int currentVersion)
  | none => false

/-- A selector has four bytes. -/
def checkSelector (g : Given) : Except ConfigFault Unit :=
  match g.selector.length? with
  | some n => refuseIf (n != 4) (.selectorLength n)
  | none => .error .mistyped

def check (g : Given) : Except Fault Config := do
  refuseIf (!g.isCurrent) (refusal g.version (.unsupportedVersion g.version))
  refuseIf (!g.url.isGiven) (.config .missingUrl)
  let target ← readTarget g.target
  let endBlock ← countField g.endBlock fun n => refusal n.toJson (.endBlock n)
  let blockRange ← countField g.blockRange fun n => refusal n.toJson (.blockRange n)
  refuseIf (!g.bytecode.isGiven) (.config .emptyBytecode)
  liftConfig g.checkSelector
  let batchSize ← countField g.batchSize fun _ => .config .batchSizeField
  let concurrency ← countField g.concurrency fun _ => .config .concurrencyField
  let timeout ← numberField g.timeout
  refuseIf (timeout.le (.int 0)) (.config .timeoutField)
  return {
    target, endBlock, blockRange
    bytecode := g.bytecode
    selector := g.selector
    url := g.url
    arguments := g.arguments
    forkByHash := g.forkByHash
    batchSize, concurrency, timeout
    detectInner := g.detectInner
    traceFailures := g.traceFailures
    version := g.version }

end Given

/-- Reads the parameters. -/
def read (env : String → Option Text) (raw : OrderedMap Json) : Except Fault Config := do
  (← liftConfig (fill env raw)).check

/-- Logs what is doubtful about accepted parameters. -/
def logDoubts (c : Config) : Act Unit := do
  if !c.forkByHash.isGiven then
    Act.log .warning ("fork_by_tx_hash is disabled: forking at block boundaries replays on " ++
      "post-state for every transaction after the first in its block")

/-- Reads the parameters and logs what is doubtful about them. -/
def load (env : String → Option Text) (raw : OrderedMap Json) : Act Config := do
  let c ← read env raw
  c.logDoubts
  return c

/-- The first block: so many blocks before the end that the range is full, but not before block
one. -/
def startBlock (c : Config) : Except Fault Number :=
  match (c.endBlock.sub? c.blockRange).bind (·.add? (.int 1)) with
  | some n => .ok (if (Number.int 1).lt n then n else .int 1)
  | none => .error .outOfRange

/-- The code to attach: the bytecode and its arguments. -/
def creationCode (c : Config) : Except Fault Blob :=
  c.bytecode.join c.arguments

end Config
end AssertionReplay
