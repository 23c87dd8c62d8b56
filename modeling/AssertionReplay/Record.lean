/-
Historical transactions, as they are fetched, written and replayed.
-/
import AssertionReplay.Address
import AssertionReplay.Field

namespace AssertionReplay

/-- One historical transaction that touched the target contract. -/
structure Record where
  hash : Text
  sender : Text
  /-- The zero address for a contract creation. -/
  recipient : Text
  value : Quantity
  data : Bytes
  block : Quantity
  /-- The position in its block. -/
  index : Quantity
  gasPrice : Quantity
  gasLimit : Quantity := .int 0
  maxFee : Quantity := .int 0
  maxPriorityFee : Quantity := .int 0
  deriving DecidableEq

namespace Record

def isCreation (r : Record) : Bool :=
  r.recipient == Address.zero

/-- Whether a record stands before another in chain order, or at the same place. -/
def atOrBefore (a b : Record) : Bool :=
  a.block.toInt < b.block.toInt ||
    (a.block.toInt == b.block.toInt && a.index.toInt ≤ b.index.toInt)

/-- Chain order; records at the same place keep their order. -/
def inChainOrder (rs : List Record) : List Record :=
  rs.mergeSort atOrBefore

/-- The record of a transaction object from an endpoint. The block number is taken from the object
if none is given. -/
def ofTransaction (tx : Json) (block? : Option Quantity) : Except Fault Record := do
  let members ← match tx, block? with
    | .obj members, _ => .ok members
    | _, none => .error .noSuchPart
    | _, some _ => .error .mistyped
  let get := Json.memberOrNull members
  let block ← match block? with
    | some n => .ok n
    | none => (Field.hexInt (get "blockNumber")).map .int
  let hash ← match tx.member? "hash" with
    | some v => Address.lowered v
    | none => .error .missingMember
  let sender ← Address.parse (get "from")
  let recipient ← Address.parse (get "to")
  let value ← Field.quantity (get "value")
  let data ← Field.bytes ((get "input").orElse (get "data"))
  let index ← Field.quantity (get "transactionIndex")
  let gasPrice ← Field.quantity (get "gasPrice")
  let gasLimit ← Field.quantity (get "gas")
  let maxFee ← Field.quantity (get "maxFeePerGas")
  let maxPriorityFee ← Field.quantity (get "maxPriorityFeePerGas")
  return { hash, sender, recipient, value, data, block, index, gasPrice, gasLimit, maxFee,
           maxPriorityFee }

end Record
end AssertionReplay
