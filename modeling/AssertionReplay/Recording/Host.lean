/-
Assertion hosts with fixed answers.

A recording gives balances, the base fee, and the results of executions: those
without tracing by what the latest fork was taken for, with a default, and one
for all with tracing. Any call can be recorded to fail, always or at its n-th
time. A fee that is set stays set.
-/
import AssertionReplay.Journal
import AssertionReplay.Text.Numeral

namespace AssertionReplay.Recording

open Text

structure Host where
  balance : Int
  balances : List (Text × Int)
  baseFee : Int
  default : CallResult
  /-- By the hash or the block number of the latest fork. -/
  results : List (Text × CallResult)
  traced : CallResult
  /-- By the name of the call, or by its name, a `#` and its count. -/
  failures : List (Text × Fault)

def callName : HostCall → Text
  | .forkByTransaction _ => "fork_by_transaction"
  | .forkByBlock _ => "fork_by_block"
  | .attach .. => "attach_assertion"
  | .balanceOf _ => "balance_of"
  | .baseFee => "base_fee"
  | .setBaseFee _ => "set_base_fee"
  | .execute _ => "execute"

namespace Host

/-- The failure that is recorded for a call after the given ones. -/
def failure? (h : Host) (past : List HostCall) (call : HostCall) : Option Fault :=
  let name := callName call
  let count := past.countP (fun c => callName c == name) + 1
  match h.failures.lookup (name ++ "#" ++ decimal count) with
  | some fault => some fault
  | none => h.failures.lookup name

/-- The calls that were carried out, the latest first; `before` holds the calls already passed, the
latest first. -/
def carriedOut (h : Host) (before : List HostCall) : List HostCall → List HostCall
  | [] => []
  | call :: rest =>
    let later := carriedOut h (call :: before) rest
    if (h.failure? before call).isSome then later else later ++ [call]

/-- The base fee after some calls. -/
def feeAfter (h : Host) (past : List HostCall) : Int :=
  ((h.carriedOut [] past).findSome? fun
    | .setBaseFee fee => some fee
    | _ => none).getD h.baseFee

/-- What the latest fork was taken for. -/
def forkKey (h : Host) (past : List HostCall) : Text :=
  ((h.carriedOut [] past).findSome? fun
    | .forkByTransaction hash => some hash
    | .forkByBlock block => some (block.text?.getD "")
    | _ => none).getD ""

/-- The answer to a call that is carried out. -/
def answerTo (h : Host) (past : List HostCall) : (call : HostCall) → call.Answer
  | .forkByTransaction _ => ()
  | .forkByBlock _ => ()
  | .attach .. => ()
  | .balanceOf address => (h.balances.lookup address).getD h.balance
  | .baseFee => h.feeAfter past
  | .setBaseFee _ => ()
  | .execute e =>
    if e.traced then h.traced else (h.results.lookup (h.forkKey past)).getD h.default

def answer (h : Host) (past : List HostCall) (call : HostCall) : Except Fault call.Answer :=
  match h.failure? past call with
  | some fault => .error fault
  | none => .ok (h.answerTo past call)

end Host
end AssertionReplay.Recording
