/-
The two forms of a payload, and the frame around it.

A payload is one line: either a count and the fields of the records with bars
between them, or an array of objects. In the frame it stands right after the
second of three markers.
-/
import AssertionReplay.Record

namespace AssertionReplay.Payload

/-- The marker that is written before, at the head of, and after the payload. -/
def marker : Text := "TRANSACTION_DATA:"

/-- Fields of a record that has no gas limit and no fee limits. -/
def legacyFields : Nat := 8

/-- Fields of a full record. -/
def extendedFields : Nat := 11

/-- The names of the members of a record, in the order of its fields. -/
def memberNames : List Text :=
  ["hash", "from", "to", "value", "data", "block_number", "transaction_index", "gas_price",
    "gas_limit", "max_fee_per_gas", "max_priority_fee_per_gas"]

end AssertionReplay.Payload
