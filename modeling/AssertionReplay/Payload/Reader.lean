/-
Reading records from a payload, and the payload from the output it is framed
in.

Every field is normalised: hashes to lower case, addresses to their
checksummed form, numbers from any spelling. A payload with fields for full
records is read so, one with fields for short records only leaves gas and fee
limits at zero, and one with fewer is refused.
-/
import AssertionReplay.Json.Parser
import AssertionReplay.Payload.Layout

namespace AssertionReplay.Payload

open Text

/-- The letters before and after the first place where `part` stands. -/
def splitAt? (part : List Letter) : List Letter → Option (List Letter × List Letter)
  | [] => if part.isEmpty then some ([], []) else none
  | l :: ls =>
    if part.isPrefixOf (l :: ls) then some ([], (l :: ls).drop part.length)
    else (splitAt? part ls).map fun (before, after) => (l :: before, after)

/-- The text between the second and the third marker, without white space at its end; empty if there
are fewer. -/
def extract (output : Text) : Text :=
  let payload? := do
    let (_, afterFirst) ← splitAt? marker.letters output.letters
    let (_, afterSecond) ← splitAt? marker.letters afterFirst
    let (payload, _) ← splitAt? marker.letters afterSecond
    some payload
  match payload? with
  | some payload => ⟨dropRightWhile (Letter.satisfies isBlank) payload⟩
  | none => ""

/-- A fault of a field, as the fault of its record. -/
def inRecord {α : Type} (fields : List Text) (result : Except Fault α) : Except Fault α :=
  match result with
  | .error (.value cause) => .error (.payload (.badField fields cause))
  | other => other

/-- The record that fields spell; the gas and fee limits are read if it is a full one. -/
def recordOf (fields : List Text) (extended : Bool) : Except Fault Record := do
  let field := fun i => fields.getD i ""
  let hash := lower (trim (field 0))
  let number ← if hash.isEmpty then .ok 0 else inRecord fields (Field.int 16 hash)
  if number == 0 then .error (.payload (.emptyHash (field 0)))
  let quantity := fun i => inRecord fields ((Field.quantityText (field i)).map Quantity.int)
  let limit := fun i => if extended then quantity i else .ok (.int 0)
  let sender ← inRecord fields (Address.parseText (field 1))
  let recipient ← inRecord fields (Address.parseText (field 2))
  let value ← quantity 3
  let data ← inRecord fields (Field.bytes (.str (trim (field 4))))
  let block ← quantity 5
  let index ← quantity 6
  let gasPrice ← quantity 7
  let gasLimit ← limit 8
  let maxFee ← limit 9
  let maxPriorityFee ← limit 10
  return { hash, sender, recipient, value, data, block, index, gasPrice, gasLimit, maxFee,
           maxPriorityFee }

/-- The first `count` records of `width` fields each. -/
def recordsOf (width : Nat) (extended : Bool) : (count : Nat) → List Text →
    Except Fault (List Record)
  | 0, _ => .ok []
  | count + 1, fields => do
    let r ← recordOf (fields.take width) extended
    let rest ← recordsOf width extended count (fields.drop width)
    return r :: rest

/-- The parts of a text between bars. -/
def splitBars : List Letter → List (List Letter)
  | [] => [[]]
  | l :: ls =>
    if l == .char '|' then [] :: splitBars ls
    else
      match splitBars ls with
      | part :: parts => (l :: part) :: parts
      | [] => [[l]]

/-- The number of records that a payload declares. -/
def countOf (field : Text) : Except Fault Int :=
  match Field.quantityText field with
  | .error (.value _) => .error (.payload (.badCount field))
  | other => other

/-- Reads a count and the fields of as many records. -/
def parseSimple (payload : Text) : Except Fault (List Record) := do
  let parts := (splitBars (trim payload).letters).map Text.mk
  let fields := parts.drop 1
  let count ← countOf (parts.headD "")
  if count == 0 then return []
  if count * extendedFields ≤ fields.length then
    recordsOf extendedFields true count.toNat fields
  else if count * legacyFields ≤ fields.length then
    recordsOf legacyFields false count.toNat fields
  else
    match decimal? count, decimal? (count * legacyFields) with
    | some declared, some needed =>
      .error (.payload (.truncated declared fields.length needed))
    | _, _ => .error (.value .unreadable)

/-- A member as the text of a field, empty if it does not count as given. -/
def fieldText (v : Json) : Text :=
  if v.isGiven then v.display else ""

def recordOfObject (v : Json) : Except Fault Record :=
  match v with
  | .obj members => recordOf (memberNames.map fun n => fieldText (Json.memberOrNull members n)) true
  | other => .error (.payload (.notObject other))

def recordsOfObjects : List Json → Except Fault (List Record)
  | [] => .ok []
  | v :: vs => do
    let r ← recordOfObject v
    let rest ← recordsOfObjects vs
    return r :: rest

/-- Reads an array of objects. -/
def parseJson (payload : Text) : Except Fault (List Record) :=
  match Json.parse? payload with
  | none => .error (.payload .notJson)
  | some (.arr items) => recordsOfObjects items
  | some _ => .error (.payload .notArray)

/-- Whether the first character that is not white space opens an array. -/
def opensArray (payload : Text) : Bool :=
  match payload.letters.dropWhile (Letter.satisfies isBlank) with
  | .char '[' :: _ => true
  | _ => false

/-- Reads the payload in an output, in the form that its first character tells. -/
def parseOutput (output : Text) : Except Fault (List Record) :=
  let payload := extract output
  if payload.isEmpty then .error (.payload .missing)
  else if opensArray payload then parseJson payload
  else parseSimple payload

end AssertionReplay.Payload
