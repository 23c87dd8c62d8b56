/-
Whether a call tree reaches an address.

A node is an object with the address it calls in `to` and its inner calls in
`calls`; anything else is no node, and calls nothing.
-/
import AssertionReplay.Address

namespace AssertionReplay.CallTree

mutual

/-- Whether the node, or a node below it, calls the target. -/
def reaches (target : Json) : Json → Except Fault Bool
  | .obj members => do
    if ← Address.same (Json.memberOrNull members "to") target then return true
    innerReach target members
  | _ => .ok false

/-- The inner calls among the members of a node. -/
def innerReach (target : Json) : List (Text × Json) → Except Fault Bool
  | [] => .ok false
  | (name, v) :: rest => if name == "calls" then callsReach target v else innerReach target rest

/-- What is given as inner calls; texts and objects hold no nodes. -/
def callsReach (target : Json) : Json → Except Fault Bool
  | .arr nodes => anyReach target nodes
  | .bool true => .error .mistyped
  | .int n => if n == 0 then .ok false else .error .mistyped
  | .float x => if x.isZero then .ok false else .error .mistyped
  | _ => .ok false

/-- Whether one of the nodes does; the ones after it are not looked at. -/
def anyReach (target : Json) : List Json → Except Fault Bool
  | [] => .ok false
  | node :: rest => do
    if ← reaches target node then return true
    anyReach target rest

end

end AssertionReplay.CallTree
