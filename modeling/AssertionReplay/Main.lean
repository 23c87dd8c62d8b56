/-
The command line: `fetch` or `probe`, followed by the tool's arguments.

The endpoint's replies are a recording on the standard input, an array of
rules; the clock stands still while it is played. The log and the progress bar
go to the standard error.
-/
import AssertionReplay.CommandLine.Tools
import AssertionReplay.Recording.Endpoint
import AssertionReplay.Recording.Host

namespace AssertionReplay

/-- An outside made of a recording: nothing is executed, and no time passes. -/
def recordedOutside (rules : List Recording.ReplyRule) (columns? : Option Text) : Outside where
  reply := Recording.answer rules
  host := Recording.Host.answer {
    balance := 0, balances := [], baseFee := 0, default := ⟨true, []⟩, results := []
    traced := ⟨true, []⟩, failures := [] }
  clock := fun _ => .zero
  columns? := columns?
  schedule := .inOrder

/-- A log line, with the wording of its fault at the end. -/
def LogEntry.line (e : LogEntry) : Text :=
  e.level.name ++ " " ++ e.text ++ ((e.cause?.map Fault.text).getD "")

/-- Prints what a finished run wrote, and gives its exit code. -/
def finish (level : Level) : Except Fault Unit × Journal → IO UInt32
  | (result, journal) => do
    let err ← IO.getStderr
    for e in journal.logsFrom level do
      err.putStrLn e.line.toString
    err.putStr journal.drawn.toString
    IO.print journal.printed.toString
    match result with
    | .ok _ => return 0
    | .error e =>
      err.putStrLn e.text.toString
      return 1

def runCommand (rules : List Recording.ReplyRule) (columns? : Option Text) :
    CommandLine.Command → IO UInt32
  | .refused reason => do
    (← IO.getStderr).putStrLn ("error: " ++ reason.toString)
    return 2
  | .help => return 0
  | .run level action => finish level (action (recordedOutside rules columns?) [])

end AssertionReplay

open AssertionReplay in
def main (args : List String) : IO UInt32 := do
  let url? := (← IO.getEnv "ETH_RPC_URL").map Text.ofString
  let columns? := (← IO.getEnv "COLUMNS").map Text.ofString
  let env := fun name : String => if name == "ETH_RPC_URL" then url? else none
  let rules := (Json.parse? (← (← IO.getStdin).readToEnd)).bind Recording.rulesOf?
  let run := runCommand (rules.getD []) columns?
  match args with
  | "fetch" :: rest => run (CommandLine.fetchCommand env (rest.map Text.ofString))
  | "probe" :: rest => run (CommandLine.probeCommand env (rest.map Text.ofString))
  | _ =>
    (← IO.getStderr).putStrLn "error: expected fetch or probe"
    return 2
