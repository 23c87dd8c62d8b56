/-
Values of the data format that endpoints, configurations and payloads use.

Whole numbers and binary64 numbers are told apart by how they were written. An
object keeps its members in the order of their first appearance, and a member
that is given again takes the last value (`OrderedMap.insert`).
-/
import AssertionReplay.Number
import AssertionReplay.OrderedMap

namespace AssertionReplay

inductive Json where
  | null
  | bool (b : Bool)
  | int (n : Int)
  | float (x : Binary64)
  | str (t : Text)
  | arr (items : List Json)
  | obj (members : List (Text × Json))

namespace Json

instance : Inhabited Json := ⟨null⟩

/-- The member of an object; none if it has none of the name or is no object. -/
def member? (v : Json) (name : Text) : Option Json :=
  match v with
  | obj members => members.lookup name
  | _ => none

/-- The member of an object, or another value where there is none. -/
def memberOr (v : Json) (name : Text) (other : Json) : Json :=
  (v.member? name).getD other

/-- The member of an object, null where there is none. -/
def memberOrNull (members : List (Text × Json)) (name : Text) : Json :=
  (members.lookup name).getD null

/-- Whether the value counts as given: not null, false, zero or empty. -/
def isGiven : Json → Bool
  | null => false
  | bool b => b
  | int n => n != 0
  | float x => !x.isZero
  | str t => !t.isEmpty
  | arr items => !items.isEmpty
  | obj members => !members.isEmpty

/-- The value, or another one if it does not count as given. -/
def orElse (v w : Json) : Json :=
  if v.isGiven then v else w

def isNull : Json → Bool
  | null => true
  | _ => false

/-- The number that a value is; a truth value is one too. -/
def number? : Json → Option Number
  | bool b => some (.whole (.flag b))
  | int n => some (.whole (.int n))
  | float x => some (.real x)
  | _ => none

/-- The short name of the kind of value. -/
def kindName : Json → String
  | null => "NoneType"
  | bool _ => "bool"
  | int _ => "int"
  | float _ => "float"
  | str _ => "str"
  | arr _ => "list"
  | obj _ => "dict"

mutual

/-- Equality of values. Members are compared by name, whatever their order. -/
def same : Json → Json → Bool
  | null, null => true
  | bool a, bool b => a == b
  | int a, int b => a == b
  | float a, float b => a == b
  | str a, str b => a == b
  | arr a, arr b => sameItems a b
  | obj a, obj b => a.length == b.length && sameMembers a b
  | _, _ => false

def sameItems : List Json → List Json → Bool
  | [], [] => true
  | v :: vs, w :: ws => same v w && sameItems vs ws
  | _, _ => false

/-- Whether each member has its like in another object. -/
def sameMembers : List (Text × Json) → List (Text × Json) → Bool
  | [], _ => true
  | (name, v) :: rest, ws =>
    (match ws.lookup name with
      | some w => same v w
      | none => false) && sameMembers rest ws

end

end Json

namespace Quantity

def toJson : Quantity → Json
  | int n => .int n
  | flag b => .bool b

end Quantity

namespace Number

def toJson : Number → Json
  | whole q => q.toJson
  | real x => .float x

end Number

end AssertionReplay
