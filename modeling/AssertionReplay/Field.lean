/-
The forms in which endpoints and payloads write numbers and bytes.

`quantity` reads a number in any of its spellings, `hexInt` one in hexadecimal
digits, and `bytes` reads hexadecimal byte text. What is not given is zero, or
no bytes. `blockHex` writes a block number the way requests carry it, and
`numeral` the way log lines show it.
-/
import AssertionReplay.Fault
import AssertionReplay.Text.Hex
import AssertionReplay.Text.Lowercase

namespace AssertionReplay.Field

open Text

def unreadable : Fault := .value .unreadable

/-- A member of a value that must be an object, null where there is none. -/
def member (v : Json) (name : Text) : Except Fault Json :=
  match v with
  | .obj members => .ok (Json.memberOrNull members name)
  | _ => .error .noSuchPart

/-- A numeral that must be readable. -/
def int (base : Nat) (t : Text) : Except Fault Int :=
  match readInt? base t with
  | some n => .ok n
  | none => .error unreadable

/-- A number in hexadecimal digits. -/
def hexText (t : Text) : Except Fault Int :=
  if t.isEmpty || t == "0x" then .ok 0 else int 16 t

/-- A number in hexadecimal digits, zero if it is not given. -/
def hexInt (v : Json) : Except Fault Int :=
  if !v.isGiven then .ok 0
  else
    match v with
    | .str t => hexText t
    | _ => .error .mistyped

/-- Whether the text starts with `0x` in either case. -/
def isHexMarked (t : Text) : Bool :=
  t.startsWith "0x" || t.startsWith "0X"

/-- A number from text: hexadecimal after `0x`, else decimal digits and nothing else; empty text is
zero. -/
def quantityText (given : Text) : Except Fault Int :=
  let t := trim given
  if t.isEmpty then .ok 0
  else if isHexMarked t then hexText t
  else if !allDigits t then .error (.value (.notInteger given))
  else int 10 t

/-- A number that is not negative where it is not text. -/
def quantity : Json → Except Fault Quantity
  | .null => .ok (.int 0)
  | .bool b => .ok (.flag b)
  | .int n => if n < 0 then .error (.value (.negative n)) else .ok (.int n)
  | .str t => (quantityText t).map .int
  | _ => .error .noSuchPart

/-- The whole part of a value that must be a number; an infinity is out of range. -/
def whole (v : Json) : Except Fault Int :=
  match v.number? with
  | none => .error .mistyped
  | some (.whole q) => .ok q.toInt
  | some (.real x) =>
    match x.truncate? with
    | some n => .ok n
    | none => .error (if x.isNaN then unreadable else .outOfRange)

/-- A block number in hexadecimal digits; it may be given as decimal text. -/
def blockHex (v : Json) : Except Fault String :=
  match v with
  | .str t => (int 10 t).map hexNumeral
  | v => (whole v).map hexNumeral

/-- The whole part of a number in decimal digits, of which there must not be more than a numeral may
have. -/
def numeral (v : Json) : Except Fault String := do
  match decimal? (← whole v) with
  | some digits => .ok digits
  | none => .error unreadable

/-- Bytes from hexadecimal text, with or without `0x` before it. -/
def bytesText (t : Text) : Except Fault Bytes :=
  match t.chars?.bind fun cs => decodeHex? (if isHexMarked t then cs.drop 2 else cs) with
  | some bs => .ok bs
  | none => .error unreadable

/-- Bytes from hexadecimal text, none if it is not given. -/
def bytes (v : Json) : Except Fault Bytes :=
  if !v.isGiven then .ok []
  else
    match v with
    | .str t => bytesText t
    | .arr _ => .error .noSuchPart
    | _ => .error .mistyped

/-- Bytes as hexadecimal text after `0x`. -/
def hexOfBytes (bs : Bytes) : String :=
  String.ofList ('0' :: 'x' :: encodeHex bs)

end AssertionReplay.Field
