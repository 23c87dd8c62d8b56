/-
Writing records as a payload.

A number is written in decimal digits; one with more digits than a numeral may
have cannot be written, and then nothing is. The recipient of a contract
creation is an empty field.
-/
import AssertionReplay.Json.Printer
import AssertionReplay.Payload.Layout

namespace AssertionReplay.Payload

open Text

inductive Format where
  | simple
  | json
  deriving DecidableEq

namespace Format

def name : Format → Text
  | simple => "simple"
  | json => "json"

/-- The format of a name; a value that names none is refused. -/
def ofName (v : Json) : Except Fault Format :=
  match v with
  | .str t =>
    if t == json.name then .ok json
    else if t == simple.name then .ok simple
    else .error (.config (.unknownFormat v))
  | _ => .error (.config (.unknownFormat v))

end Format

/-- A number as a field. -/
def numberText (q : Quantity) : Except Fault String :=
  match q.text? with
  | some s => .ok s
  | none => .error (.value .unreadable)

/-- The fields of a record. -/
def fieldsOf (r : Record) : Except Fault (List Text) := do
  let value ← numberText r.value
  let block ← numberText r.block
  let index ← numberText r.index
  let gasPrice ← numberText r.gasPrice
  let gasLimit ← numberText r.gasLimit
  let maxFee ← numberText r.maxFee
  let maxPriorityFee ← numberText r.maxPriorityFee
  return [r.hash, r.sender, if r.isCreation then "" else r.recipient, value,
    Field.hexOfBytes r.data, block, index, gasPrice, gasLimit, maxFee, maxPriorityFee]

def allFields (rs : List Record) : Except Fault (List (List Text)) :=
  match rs with
  | [] => .ok []
  | r :: rest => do
    let fields ← fieldsOf r
    let others ← allFields rest
    return fields :: others

/-- The count and the fields of the records, with bars between them. -/
def writeSimple (rs : List Record) : Except Fault Text := do
  let fields ← allFields rs
  return Text.intercalate "|" (decimal rs.length :: fields.flatten)

/-- An array of objects, whose members are texts. -/
def writeJson (rs : List Record) : Except Fault Text := do
  let fields ← allFields rs
  let object := fun fs : List Text => Json.obj (memberNames.zip (fs.map Json.str))
  return (Json.arr (fields.map object)).write Json.ascii

def write (format : Format) (rs : List Record) : Except Fault Text :=
  match format with
  | .simple => writeSimple rs
  | .json => writeJson rs

/-- The line before the payload. -/
def frameHead : Text := marker ++ "START\n"

/-- The payload with its marker, and the line after it. -/
def frameBody (payload : Text) : Text := marker ++ payload ++ marker ++ "END\n"

/-- The payload in its frame. -/
def framed (payload : Text) : Text := frameHead ++ frameBody payload

end AssertionReplay.Payload
