/-
Why an action fails.

A fault is a cause, and `Fault.text?` is its wording. The faults of the first
group (`Fault.isOwn`) are the tool's own and the ones its callers are told to
expect; the others come from values of the wrong kind or from outside, and of
those only what the outside itself worded has a text.
-/
import AssertionReplay.Json.Display

namespace AssertionReplay

open Text

/-- Why a value is not of the form asked for. -/
inductive ValueFault where
  /-- A number that must not be below zero. -/
  | negative (n : Int)
  /-- Text that is no whole number in hexadecimal or decimal digits. -/
  | notInteger (given : Text)
  /-- Text or a number that cannot be converted. -/
  | unreadable

/-- Why a run's parameters are refused. -/
inductive ConfigFault where
  | unknownFormat (given : Json)
  | negativeBlock
  | reversedRange
  | batchSize
  | concurrency
  | invalidTarget (given : Json)
  | unknownFields (names : List Text)
  | unsupportedVersion (given : Json)
  | missingUrl
  | invalidTargetField (given : Json)
  | zeroTarget
  | endBlock (given : Number)
  | blockRange (given : Number)
  | emptyBytecode
  | selectorLength (length : Nat)
  | batchSizeField
  | concurrencyField
  | timeoutField
  | notHex (field : String)
  | notIntegerSetting (name : String) (given : Text)
  /-- A field is missing, or its value is of a kind that cannot be compared or measured. -/
  | mistyped

/-- Why a payload is refused. -/
inductive PayloadFault where
  | emptyHash (given : Text)
  | badField (fields : List Text) (cause : ValueFault)
  | badCount (given : Text)
  /-- `count` and `needed` are the numbers as text. -/
  | truncated (count : String) (available : Nat) (needed : String)
  | notJson
  | notArray
  | notObject (given : Json)
  | missing

/-- Why a request has no answer. -/
inductive TransportFault where
  /-- The time allowed, as text. -/
  | timedOut (seconds : String)
  | failed (reason : Text)
  | status (code : Int)
  | notJson
  | unexpectedShape
  | rateLimited

inductive Fault where
  | config (cause : ConfigFault)
  | payload (cause : PayloadFault)
  /-- The endpoint answered with an error of its own. -/
  | rpc (method : Text) (code : Json) (message : Text)
  | transport (method : Text) (cause : TransportFault)
  | value (cause : ValueFault)
  /-- A value of a kind on which the operation is not defined. -/
  | mistyped
  /-- Values of kinds that cannot be put together, by the names of the kinds. -/
  | notJoinable (left right : String)
  /-- A value whose kind has no such part. -/
  | noSuchPart
  /-- An object without the member that was asked for. -/
  | missingMember
  /-- A number beyond the range of what it is converted to. -/
  | outOfRange
  /-- Raised outside, by the transport or the assertion host; `own` tells whether as one of the
  tool's own faults. -/
  | raised (own : Bool) (kind : String) (text : Text)

namespace ValueFault

def text? : ValueFault → Option String
  | negative n => (decimal? n).map ("negative value: " ++ ·)
  | notInteger given => some ("not a hex or decimal integer: " ++ quoted given)
  | unreadable => none

end ValueFault

namespace ConfigFault

def text? : ConfigFault → Option Text
  | unknownFormat given => some ("unknown output format: " ++ given.quoted)
  | negativeBlock => some "Block numbers must be positive integers"
  | reversedRange => some "Start block must be less than or equal to end block"
  | batchSize => some "batch size must be >= 1"
  | concurrency => some "max concurrent must be >= 1"
  | invalidTarget given => some ("invalid target contract: " ++ given.quoted)
  | unknownFields names => some ("unknown config fields: " ++ Text.intercalate ", " names)
  | unsupportedVersion given =>
    some ("unsupported config version " ++ given.display ++ " (expected 1)")
  | missingUrl => some "rpc_url is required"
  | invalidTargetField given => some ("invalid target_contract: " ++ given.quoted)
  | zeroTarget => some "target_contract must be a non-zero address"
  | endBlock given => some ("end_block must be >= 1, got " ++ given.toJson.display)
  | blockRange given => some ("block_range must be >= 1, got " ++ given.toJson.display)
  | emptyBytecode => some "assertion_bytecode is empty"
  | selectorLength length =>
    some ("trigger_selector must be 4 bytes, got " ++ decimal length)
  | batchSizeField => some "batch_size must be >= 1"
  | concurrencyField => some "max_concurrent must be >= 1"
  | timeoutField => some "rpc_timeout must be positive"
  | notHex field => some (field ++ " is not valid hex")
  | notIntegerSetting name given => some (name ++ " must be an integer, got " ++ quoted given)
  | mistyped => none

end ConfigFault

namespace PayloadFault

def text : PayloadFault → String
  | emptyHash given => "zero or empty transaction hash: " ++ quoted given
  | badField fields cause =>
    "bad record field in " ++ Json.bracketed (fields.map quoted) ++
      match cause.text? with
      | some reason => ": " ++ reason
      | none => ""
  | badCount given => "bad record count: " ++ quoted given
  | truncated count available needed =>
    "payload declares " ++ count ++ " records but has " ++ decimal available ++
      " fields (need at least " ++ needed ++ ")"
  | notJson => "invalid JSON payload"
  | notArray => "JSON payload must be an array"
  | notObject given => "JSON record is not an object: " ++ given.quoted
  | missing => "no TRANSACTION_DATA payload found in fetcher output"

end PayloadFault

namespace TransportFault

def text : TransportFault → Text
  | timedOut seconds => "timed out after " ++ seconds ++ "s"
  | failed reason => reason
  | status code => "HTTP " ++ decimal code
  | notJson => "invalid JSON response"
  | unexpectedShape => "unexpected response shape"
  | rateLimited => "rate limited"

end TransportFault

namespace Fault

/-- Whether the fault is one of the tool's own. -/
def isOwn : Fault → Bool
  | config _ | payload _ | rpc .. | transport .. => true
  | raised own _ _ => own
  | _ => false

def text? : Fault → Option Text
  | config cause => cause.text?
  | payload cause => some (cause.text : Text)
  | rpc method code message =>
    some ("RPC error from " ++ method ++ ": [" ++ code.display ++ "] " ++ message)
  | transport method cause => some ("RPC request failed: " ++ method ++ ": " ++ cause.text)
  | value cause => cause.text?.map .ofString
  | mistyped | notJoinable .. | noSuchPart | missingMember | outOfRange => none
  | raised _ _ text => some text

/-- The wording, empty for a fault that has none. -/
def text (f : Fault) : Text :=
  f.text?.getD ""

/-- What is wrong with two values that cannot be put together. -/
def joinText (left right : String) : String :=
  if left == "bytes" then "can't concat " ++ right ++ " to bytes"
  else if left == "list" then "can only concatenate list (not \"" ++ right ++ "\") to list"
  else "unsupported operand type(s) for +: '" ++ left ++ "' and '" ++ right ++ "'"

/-- The wording with the kind of the fault before it, for a fault that is not the tool's own. -/
def label (f : Fault) : Text :=
  match f with
  | raised _ kind text => kind ++ ": " ++ text
  | notJoinable left right => "TypeError: " ++ joinText left right
  | outOfRange => "OverflowError: int too large to convert to float"
  | f => f.text

end Fault
end AssertionReplay
