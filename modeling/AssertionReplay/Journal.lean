/-
What a run does, in order, and what it needs from outside.

An action (`Act`) reads the outside world, adds events to the journal, and
ends with a value or a fault; the journal is kept in both cases. The outside
answers every request and every call of the assertion host by a function of
what was asked before, so an endpoint may answer the same request differently
later. The clock is a sequence of readings. How the block fetches of a batch
are ordered among the workers is the outside's choice as well (`Schedule`), and
so is how long a pause may be (`PauseLimit`).
-/
import AssertionReplay.Record

namespace AssertionReplay

/-- Bytes, or a value of another kind where bytes were meant. -/
inductive Blob where
  | bytes (bs : Bytes)
  | other (v : Json)

inductive Level where
  | debug
  | info
  | warning
  | error
  deriving DecidableEq

namespace Level

def rank : Level → Nat
  | debug => 0
  | info => 1
  | warning => 2
  | error => 3

def name : Level → String
  | debug => "DEBUG"
  | info => "INFO"
  | warning => "WARNING"
  | error => "ERROR"

end Level

/-- A line of the log. The fault that the line ends with, if any, is kept apart from its wording. -/
structure LogEntry where
  level : Level
  text : Text
  cause? : Option Fault := none

/-- Where requests are sent, and how long each may take in seconds; both as they were given. -/
structure Connection where
  url : Json
  timeout : Json

structure Request where
  method : Text
  params : Json

/-- A call of the assertion host that is to execute a transaction. -/
structure Execution where
  sender : Text
  recipient : Text
  value : Quantity
  data : Bytes
  gasLimit : Quantity
  gasPrice : Quantity
  traced : Bool

inductive HostCall where
  /-- Take the state right before a transaction. -/
  | forkByTransaction (hash : Text)
  /-- Take the state at the start of a block. -/
  | forkByBlock (block : Quantity)
  /-- Watch an adopter by an assertion, for the next execution only. -/
  | attach (adopter : String) (code selector : Blob)
  | balanceOf (address : Text)
  | baseFee
  | setBaseFee (fee : Int)
  | execute (e : Execution)

/-- How an execution ended. -/
structure CallResult where
  success : Bool
  data : Bytes

/-- What the host answers to a call that it carries out. -/
def HostCall.Answer : HostCall → Type
  | balanceOf _ | baseFee => Int
  | execute _ => CallResult
  | _ => Unit

/-- An HTTP response with the values of its headers; `content?` is the value that the body spells,
if it spells one. -/
structure Response where
  status : Int
  headers : List (Text × Json)
  content? : Option Json

/-- What comes of a request. -/
inductive Reply where
  | response (r : Response)
  | timeout
  /-- The transport gave up for the reason given. -/
  | failure (reason : Text)
  /-- The transport broke down with a fault of its own. -/
  | raised (fault : Fault)

/-- An order in which the workers fetch the blocks of a batch. -/
structure Schedule where
  order : List Int → List Int
  perm : ∀ blocks, (order blocks).Perm blocks

/-- The blocks one after another. -/
def Schedule.inOrder : Schedule where
  order := id
  perm := fun _ => .refl _

/-- A pause must be of fewer seconds than these to be counted by the clock, which counts a billion at
least. -/
structure PauseLimit where
  seconds : Int
  generous : 1000000000 ≤ seconds

/-- Whether a pause can be made; without a limit, every one can. -/
def PauseLimit.allows (limit? : Option PauseLimit) (seconds : Binary64) : Bool :=
  match limit? with
  | some limit => seconds.orderInt? limit.seconds == some .lt
  | none => true

structure Outside where
  reply : (past : List Request) → Request → Reply
  host : (past : List HostCall) → (call : HostCall) → Except Fault call.Answer
  clock : Nat → Binary64
  /-- The width of the terminal, as the environment gives it. -/
  columns? : Option Text
  schedule : Schedule
  pauseLimit? : Option PauseLimit := none

inductive Event where
  | post (connection : Connection) (request : Request)
  | sleep (seconds : Binary64)
  | log (entry : LogEntry)
  | clock
  /-- Text on the standard output. -/
  | printed (text : Text)
  /-- Text of the progress bar. -/
  | drew (text : Text)
  | host (call : HostCall)

/-- Events, the first one first. -/
abbrev Journal := List Event

namespace Journal

def requests (j : Journal) : List Request :=
  j.filterMap fun
    | .post _ r => some r
    | _ => none

def connections (j : Journal) : List Connection :=
  j.filterMap fun
    | .post c _ => some c
    | _ => none

def hostCalls (j : Journal) : List HostCall :=
  j.filterMap fun
    | .host c => some c
    | _ => none

def logs (j : Journal) : List LogEntry :=
  j.filterMap fun
    | .log e => some e
    | _ => none

/-- The log lines of a level or above. -/
def logsFrom (level : Level) (j : Journal) : List LogEntry :=
  j.logs.filter fun e => level.rank ≤ e.level.rank

def clockReads (j : Journal) : Nat :=
  j.countP fun
    | .clock => true
    | _ => false

def printed (j : Journal) : Text :=
  Text.join (j.filterMap fun
    | .printed text => some text
    | _ => none)

def drawn (j : Journal) : Text :=
  Text.join (j.filterMap fun
    | .drew text => some text
    | _ => none)

end Journal

/-- An action: with the outside and the journal so far, it ends with a value or a fault, and with
the journal it has extended. -/
def Act (α : Type) := Outside → Journal → Except Fault α × Journal

namespace Act

variable {α β : Type}

def pure (a : α) : Act α := fun _ j => (.ok a, j)

def bind (x : Act α) (f : α → Act β) : Act β := fun o j =>
  match x o j with
  | (.ok a, j) => f a o j
  | (.error e, j) => (.error e, j)

def fail (e : Fault) : Act α := fun _ j => (.error e, j)

def recover (x : Act α) (handle : Fault → Act α) : Act α := fun o j =>
  match x o j with
  | (.ok a, j) => (.ok a, j)
  | (.error e, j) => handle e o j

instance : Monad Act where
  pure := pure
  bind := bind

instance : MonadExceptOf Fault Act where
  throw := fail
  tryCatch := recover

/-- The value, or the fault, of a pure computation. -/
def ofExcept : Except Fault α → Act α
  | .ok a => pure a
  | .error e => fail e

instance : MonadLift (Except Fault) Act where
  monadLift := ofExcept

/-- The outcome of an action as a value. -/
def attempt (x : Act α) : Act (Except Fault α) := fun o j =>
  match x o j with
  | (r, j) => (.ok r, j)

/-- The outcome of an action, unless it fails with a fault that is not the tool's own. -/
def attemptOwn (x : Act α) : Act (Except Fault α) := fun o j =>
  match x o j with
  | (.ok a, j) => (.ok (.ok a), j)
  | (.error e, j) => if e.isOwn then (.ok (.error e), j) else (.error e, j)

/-- The outside itself. -/
def outside : Act Outside := fun o j => (.ok o, j)

def record (e : Event) : Act Unit := fun _ j => (.ok (), j ++ [e])

def post (connection : Connection) (request : Request) : Act Reply := fun o j =>
  (.ok (o.reply j.requests request), j ++ [.post connection request])

/-- A pause; one that is too long is not begun. -/
def sleep (seconds : Binary64) : Act Unit := fun o j =>
  if PauseLimit.allows o.pauseLimit? seconds then (.ok (), j ++ [.sleep seconds]) else (.error .outOfRange, j)

def log (level : Level) (text : Text) : Act Unit := record (.log ⟨level, text, none⟩)

/-- A log line that ends with the wording of a fault. -/
def logFault (level : Level) (text : Text) (cause : Fault) : Act Unit :=
  record (.log ⟨level, text, some cause⟩)

/-- A log line with numbers in it. One that cannot be written is left out, and nothing fails. -/
def logWritten (level : Level) (cause? : Option Fault) (text : Except Fault Text) : Act Unit :=
  match text with
  | .ok text => record (.log ⟨level, text, cause?⟩)
  | .error _ => pure ()

/-- The next reading of the clock. -/
def now : Act Binary64 := fun o j =>
  (.ok (o.clock j.clockReads), j ++ [.clock])

def print (text : Text) : Act Unit := record (.printed text)

def draw (text : Text) : Act Unit := record (.drew text)

/-- A call of the assertion host; it counts as made even if it fails. -/
def host (call : HostCall) : Act call.Answer := fun o j =>
  (o.host j.hostCalls call, j ++ [.host call])

/-- Does an action for each element, in order. -/
def forEach (xs : List α) (f : α → Act Unit) : Act Unit :=
  match xs with
  | [] => pure ()
  | x :: rest => bind (f x) fun _ => forEach rest f

/-- The values of an action for each element, in order. -/
def mapEach (xs : List α) (f : α → Act β) : Act (List β) :=
  match xs with
  | [] => pure []
  | x :: rest => bind (f x) fun y => bind (mapEach rest f) fun ys => pure (y :: ys)

end Act
end AssertionReplay
