/-
Reading a transaction object.

An object is read as a record exactly if each of its fields can be read
(`Record.ofTransaction_eq_ok_iff`). Where the object says the number of the
block it is asked for under, both ways of reading it give the same record
(`Record.ofTransaction_without_block`).
-/
import AssertionReplay.Proofs.Letters
import AssertionReplay.Proofs.Outcome
import AssertionReplay.Record

namespace AssertionReplay

open Text

namespace Record

/-- The block number that is given, or else the one of the object. -/
def blockNumber (members : List (Text × Json)) : Option Quantity → Except Fault Quantity
  | some n => .ok n
  | none => (Field.hexInt (Json.memberOrNull members "blockNumber")).map .int

/-- The fields of a transaction object can be read, and are those of the record; the block number is
taken from the object if none is given. -/
structure ReadFrom (members : List (Text × Json)) (block? : Option Quantity) (r : Record) : Prop where
  hash : ∃ t, (Json.obj members).member? "hash" = some (.str t) ∧ r.hash = lower t
  sender : ∃ a : String, Address.parse (Json.memberOrNull members "from") = .ok a ∧ r.sender = a
  recipient : ∃ a : String, Address.parse (Json.memberOrNull members "to") = .ok a ∧ r.recipient = a
  value : Field.quantity (Json.memberOrNull members "value") = .ok r.value
  data : Field.bytes ((Json.memberOrNull members "input").orElse (Json.memberOrNull members "data")) =
    .ok r.data
  block : blockNumber members block? = .ok r.block
  index : Field.quantity (Json.memberOrNull members "transactionIndex") = .ok r.index
  gasPrice : Field.quantity (Json.memberOrNull members "gasPrice") = .ok r.gasPrice
  gasLimit : Field.quantity (Json.memberOrNull members "gas") = .ok r.gasLimit
  maxFee : Field.quantity (Json.memberOrNull members "maxFeePerGas") = .ok r.maxFee
  maxPriorityFee : Field.quantity (Json.memberOrNull members "maxPriorityFeePerGas") = .ok r.maxPriorityFee

/-- **Reading a transaction.** An object is read as a record exactly if each field is. -/
theorem ofTransaction_eq_ok_iff {members : List (Text × Json)} {block? : Option Quantity} {r : Record} :
    ofTransaction (.obj members) block? = .ok r ↔ ReadFrom members block? r := by
  constructor
  · intro h
    cases block?
    all_goals
      simp only [ofTransaction, bind_eq_ok_iff] at h
      obtain ⟨_, ⟨⟩, _, hblock, h⟩ := h
      split at h
      · simp only [bind_eq_ok_iff, Address.lowered_eq_ok_iff] at h
        obtain ⟨_, ⟨t, rfl, rfl⟩, h⟩ := h
        obtain ⟨sender, hsender, recipient, hrecipient, value, hvalue, data, hdata, h⟩ := h
        obtain ⟨index, hindex, price, hprice, limit, hlimit, max, hmax, prio, hprio, h⟩ := h
        rename_i hhash
        cases h
        exact ⟨⟨t, hhash, rfl⟩, ⟨_, hsender, rfl⟩, ⟨_, hrecipient, rfl⟩, hvalue, hdata, hblock, hindex, hprice,
          hlimit, hmax, hprio⟩
      · obtain ⟨_, h, _⟩ := bind_eq_ok_iff.mp h
        cases h
  · rintro ⟨⟨t, ht, hhash⟩, ⟨a, hfrom, hsender⟩, ⟨a', hto, hrecipient⟩, hvalue, hdata, hblock, hindex, hprice,
      hlimit, hmax, hprio⟩
    cases r
    subst hhash hsender hrecipient
    cases block? with
    | some n =>
      cases hblock
      simp [ofTransaction, ht, Address.lowered, hfrom, hto, hvalue, hdata, hindex, hprice, hlimit, hmax,
        hprio, bind, Except.bind, pure, Except.pure]
    | none =>
      simp only [blockNumber] at hblock
      simp [ofTransaction, ht, Address.lowered, hfrom, hto, hvalue, hdata, hblock, hindex, hprice, hlimit,
        hmax, hprio, bind, Except.bind, pure, Except.pure]

theorem ofTransaction_obj {v : Json} {n : Quantity} {r : Record} (h : ofTransaction v (some n) = .ok r) :
    ∃ members, v = .obj members := by
  cases v with
  | obj members => exact ⟨members, rfl⟩
  | _ => cases h

/-- A record does not depend on whether its block is given, or is read from the object. -/
theorem ofTransaction_without_block {v : Json} {n : Int} {r : Record}
    (h : ofTransaction v (some (.int n)) = .ok r)
    (hn : Field.hexInt (v.memberOr "blockNumber" .null) = .ok n) : ofTransaction v none = .ok r := by
  obtain ⟨members, rfl⟩ := ofTransaction_obj h
  rw [ofTransaction_eq_ok_iff] at h ⊢
  refine { h with block := ?_ }
  have hblock : r.block = .int n := by simpa [blockNumber, eq_comm] using h.block
  rw [hblock, blockNumber, show Json.memberOrNull members "blockNumber" = _ from rfl]
  exact congrArg (Except.map Quantity.int) hn

end Record
end AssertionReplay
