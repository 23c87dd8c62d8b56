/-
The two command line tools.

`fetch` writes the records of the transactions that touched a contract, in a
frame on the standard output; `probe` tells which ways of tracing an endpoint
supports. Both take the address of the endpoint from an option or else from
the environment.
-/
import AssertionReplay.CommandLine.Arguments
import AssertionReplay.Config
import AssertionReplay.Fetch.Range
import AssertionReplay.Fetch.Summary
import AssertionReplay.Payload.Writer

namespace AssertionReplay.CommandLine

open Text

/-! ## Values -/

def badValue (reader : String) (given : Text) : String :=
  "invalid " ++ reader ++ " value: " ++ quoted given

/-- A block number in digits. -/
def blockNumber (given : Text) : Except Text Json :=
  if !allDigits given then .error "Block numbers must be positive integers"
  else
    match readInt? 10 given with
    | some n => .ok (.int n)
    | none => .error (badValue "_block_number" given)

/-- A number of at least one in digits. -/
def positive (given : Text) : Except Text Json :=
  let refused : Text := "expected a positive integer, got " ++ quoted given
  if !allDigits given then .error refused
  else
    match readInt? 10 given with
    | some n => if n < 1 then .error refused else .ok (.int n)
    | none => .error (badValue "_positive_int" given)

def address (given : Text) : Except Text Json :=
  match Address.parseText given with
  | .ok a => .ok (.str a)
  | .error _ => .error ("invalid address: " ++ quoted given)

def seconds (given : Text) : Except Text Json :=
  match Binary64.read? given with
  | some x => .ok (.float x)
  | none => .error (badValue "float" given)

def format (given : Text) : Except Text Json :=
  match Payload.Format.ofName (.str given) with
  | .ok f => .ok (.str f.name)
  | .error _ => .error ("invalid choice: " ++ quoted given ++ " (choose from 'simple', 'json')")

/-! ## Settings -/

/-- Settings of both tools. -/
structure Common where
  url : Json
  timeout : Json := .float (.ofInt 30)
  verbose : Bool := false

structure FetchSettings where
  common : Common
  target : Json := .null
  first : Json := .null
  last : Json := .null
  format : Json := .str Payload.Format.simple.name
  batchSize : Json := .int 10
  concurrency : Json := .int 5
  detailed : Bool := false
  receiptFallback : Bool := false
  noInner : Bool := false
  progress : Bool := false

structure ProbeSettings where
  common : Common
  block : Json := .null
  target : Json := .null

/-- An option with a value that a reader takes. -/
def valued {σ : Type} (name : Text) (required : Bool) (read : Text → Except Text Json)
    (set : Json → σ → σ) : Spec σ where
  names := [name]
  required := required
  action := .value read set

def flagged {σ : Type} (name : Text) (set : σ → σ) : Spec σ where
  names := [name]
  action := .flag set

def helpSpec {σ : Type} : Spec σ where
  names := ["-h", "--help"]
  action := .help

/-- The options of both tools; `change` applies a change of the common settings. -/
def commonSpecs {σ : Type} (change : (Common → Common) → σ → σ) : List (Spec σ) :=
  [helpSpec,
    valued "--rpc-url" false (fun given => .ok (.str given)) fun v =>
      change fun c => { c with url := v },
    valued "--timeout" false seconds fun v => change fun c => { c with timeout := v },
    { names := ["-v", "--verbose"], action := .flag (change fun c => { c with verbose := true }) }]

def fetchSpecs : List (Spec FetchSettings) :=
  commonSpecs (fun change s => { s with common := change s.common }) ++ [
    valued "--target-contract" true address fun v s => { s with target := v },
    valued "--start-block" true blockNumber fun v s => { s with first := v },
    valued "--end-block" true blockNumber fun v s => { s with last := v },
    valued "--output-format" false format fun v s => { s with format := v },
    valued "--batch-size" false positive fun v s => { s with batchSize := v },
    valued "--max-concurrent" false positive fun v s => { s with concurrency := v },
    flagged "--detailed-blocks" fun s => { s with detailed := true },
    flagged "--receipt-log-fallback" fun s => { s with receiptFallback := true },
    flagged "--no-internal-calls" fun s => { s with noInner := true },
    flagged "--progress" fun s => { s with progress := true }]

def probeSpecs : List (Spec ProbeSettings) :=
  commonSpecs (fun change s => { s with common := change s.common }) ++ [
    valued "--block" true blockNumber fun v s => { s with block := v },
    valued "--target-contract" false address fun v s => { s with target := v }]

/-! ## Runs -/

/-- Writes records in a frame on the standard output. The head of the frame is written even if the
records cannot be. -/
def printPayload (format : Json) (records : List Record) : Act Unit := do
  Act.print Payload.frameHead
  let payload ← Payload.write (← Payload.Format.ofName format) records
  Act.print (Payload.frameBody payload)

def clientOf (c : Common) : Client :=
  { connection := ⟨c.url, c.timeout⟩ }

def runFetch (s : FetchSettings) : Act Unit := do
  Act.log .info "Starting transaction fetch with internal call detection"
  let f ← Fetcher.create (clientOf s.common) s.target s.batchSize s.concurrency (!s.noInner)
    s.receiptFallback none s.progress
  let fetched ← f.fetch s.first s.last
  printPayload s.format fetched.records
  if s.detailed then
    Act.print ("\n".intercalate (BlockResult.summaries fetched.blocks) ++ "\n")

def runProbe (s : ProbeSettings) : Act Unit := do
  Act.print ("Trace support check for block " ++ s.block.display ++ "\n")
  let reports ← Probe.all (clientOf s.common) s.block s.target
  Act.forEach reports fun r => do
    Act.print (r.render ++ "\n")
    if !r.detail.isEmpty then
      Act.log .debug (r.capability.method ++ ": " ++ r.detail)

/-- What a command line asks for. -/
inductive Command where
  | refused (reason : Text)
  | help
  /-- A run, and the least level of the lines it logs. -/
  | run (level : Level) (action : Act Unit)

def logLevel (c : Common) : Level :=
  if c.verbose then .debug else .info

/-- The settings before any argument; the environment may give the endpoint's address. -/
def initial (env : String → Option Text) : Common where
  url := ((Config.defaultUrl env).map Json.str).getD .null

def missingUrl : Command := .refused "--rpc-url is required (or set ETH_RPC_URL)"

def fetchCommand (env : String → Option Text) (args : List Text) : Command :=
  match parse fetchSpecs { common := initial env } args with
  | .refused reason => .refused reason
  | .help => .help
  | .settings s =>
    if !s.common.url.isGiven then missingUrl
    else
      match Fetcher.rangeOf s.first s.last with
      | .error (.config cause) => .refused (Fault.config cause).text
      | .error e => .run (logLevel s.common) (throw e)
      | .ok _ => .run (logLevel s.common) (runFetch s)

def probeCommand (env : String → Option Text) (args : List Text) : Command :=
  match parse probeSpecs { common := initial env } args with
  | .refused reason => .refused reason
  | .help => .help
  | .settings s =>
    if !s.common.url.isGiven then missingUrl
    else .run (logLevel s.common) (runProbe s)

end AssertionReplay.CommandLine
