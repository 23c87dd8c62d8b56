/-
Chains, and the records that a fetch of one is to return.

A chain knows more of a transaction than one reply of an endpoint tells: the
object that describes it, the record that this object is read as, the tree of
its calls and the logs it emitted (`Mined`). In a chain each of them is read
under its own block number and at its own position, and no two share a hash up
to letter case (`Chain`). The records of a range are those of its
transactions that touch the target, block by block (`Chain.records`); they
stand in chain order and no two stand at the same place.
-/
import AssertionReplay.Proofs.Batches
import AssertionReplay.Proofs.CallTree
import AssertionReplay.Proofs.Transaction

namespace AssertionReplay

open Text

/-- A transaction of a chain. -/
structure Mined where
  /-- As an endpoint describes it. -/
  object : Json
  hash : Text
  record : Record
  /-- Its calls, as a tracer tells them. -/
  tree : Json
  /-- The logs of its receipt. -/
  logs : List Json

namespace Mined

variable {t : Mined} {n : Int} {position : Nat}

/-- The hash that it is found by. -/
def key (t : Mined) : Text := lower t.hash

def recipient (t : Mined) : Json := t.object.memberOr "to" .null

/-- It is a call of the address. -/
def calls (address : Text) (t : Mined) : Bool := Address.names address t.recipient

/-- One of its calls, at any depth, is a call of the address. -/
def reaches (address : Text) (t : Mined) : Bool :=
  (CallTree.recipients t.tree).any (Address.names address)

/-- One of its logs was emitted by the address. -/
def emits (address : Text) (t : Mined) : Bool :=
  t.logs.any fun entry => Address.names address (entry.memberOr "address" .null)

/-- The top call of the tree is a call of what the transaction itself calls. -/
def Rooted (t : Mined) : Prop :=
  ∀ address, t.calls address = true → Address.names address (t.tree.memberOr "to" .null) = true

/-- Its place in a result: the record, by hash. -/
def entry (t : Mined) : Text × Record := (t.key, t.record)

/-- The transaction is read as its record, in the block and at the position that it says itself. -/
structure At (t : Mined) (n : Int) (position : Nat) : Prop where
  hash : t.object.member? "hash" = some (.str t.hash)
  named : t.hash.isEmpty = false
  record : Record.ofTransaction t.object (some (.int n)) = .ok t.record
  block : Field.hexInt (t.object.memberOr "blockNumber" .null) = .ok n
  index : t.record.index.toInt = position
  tree : CallTree.WellTyped t.tree
  logs : ∀ entry ∈ t.logs, ∃ address, Field.member entry "address" = .ok address ∧ Address.Textual address

namespace At

theorem object (h : t.At n position) : ∃ members, t.object = .obj members :=
  Record.ofTransaction_obj h.record

theorem isObject (h : t.At n position) : Fetcher.isObject t.object = true := by
  obtain ⟨members, hobj⟩ := h.object
  rw [hobj]
  rfl

theorem isGiven (h : t.At n position) : t.object.isGiven = true := by
  obtain ⟨members, hobj⟩ := h.object
  have hhash := h.hash
  rw [hobj] at hhash ⊢
  cases members with
  | nil => cases hhash
  | cons => rfl

theorem member (h : t.At n position) (name : Text) :
    Field.member t.object name = .ok (t.object.memberOr name .null) := by
  obtain ⟨members, hobj⟩ := h.object
  rw [hobj]
  rfl

theorem member_hash (h : t.At n position) : Field.member t.object "hash" = .ok (.str t.hash) := by
  rw [h.member, Json.memberOr, h.hash]
  rfl

theorem key_isEmpty (h : t.At n position) : t.key.isEmpty = false := by
  rw [key, lower_isEmpty, h.named]

theorem readFrom (h : t.At n position) :
    ∃ members, t.object = .obj members ∧ Record.ReadFrom members (some (.int n)) t.record := by
  obtain ⟨members, hobj⟩ := h.object
  exact ⟨members, hobj, Record.ofTransaction_eq_ok_iff.mp (hobj ▸ h.record)⟩

theorem record_hash (h : t.At n position) : t.record.hash = t.key := by
  obtain ⟨members, hobj, hread⟩ := h.readFrom
  obtain ⟨text, htext, heq⟩ := hread.hash
  have hsame := h.hash
  rw [hobj, htext] at hsame
  cases hsame
  exact heq

theorem record_block (h : t.At n position) : t.record.block = .int n := by
  obtain ⟨members, hobj, hread⟩ := h.readFrom
  simpa [Record.blockNumber, eq_comm] using hread.block

/-- Looked up by hash, without a block, it is read as the same record. -/
theorem record_by_hash (h : t.At n position) : Record.ofTransaction t.object none = .ok t.record :=
  Record.ofTransaction_without_block h.record h.block

theorem textual (h : t.At n position) : Address.Textual t.recipient := by
  obtain ⟨members, hobj, hread⟩ := h.readFrom
  obtain ⟨address, hparse, -⟩ := hread.recipient
  rw [recipient, hobj]
  exact Address.textual_of_parse hparse

/-- Whether it is a direct call is what the comparison of its recipient tells. -/
theorem same_recipient (h : t.At n position) (address : Text) :
    Address.same t.recipient (.str address) = .ok (t.calls address) :=
  Address.same_of_textual h.textual

theorem reaches_tree (h : t.At n position) (address : Text) :
    CallTree.reaches (.str address) t.tree = .ok (t.reaches address) :=
  CallTree.reaches_eq h.tree

end At

theorem reaches_of_rooted (hroot : t.Rooted) {address : Text} (hcalls : t.calls address = true) :
    t.reaches address = true := by
  have htop := hroot address hcalls
  rw [reaches]
  cases htree : t.tree with
  | obj members =>
    rw [htree] at htop
    rw [CallTree.recipients, List.any_cons, Bool.or_eq_true]
    exact .inl htop
  | _ =>
    rw [htree] at htop
    cases htop

end Mined

/-- The records of transactions, by hash. -/
def entries (p : Mined → Bool) (ts : List Mined) : OrderedMap Record :=
  (ts.filter p).map Mined.entry

theorem entries_congr {p q : Mined → Bool} {ts : List Mined} (h : ∀ t ∈ ts, p t = q t) :
    entries p ts = entries q ts :=
  congrArg (List.map Mined.entry) (List.filter_congr h)

theorem mem_keys_entries {p : Mined → Bool} {ts : List Mined} {k : Text} :
    k ∈ (entries p ts).map (·.1) ↔ ∃ t ∈ ts, p t = true ∧ t.key = k := by
  simp only [entries, List.map_map, List.mem_map, List.mem_filter, Function.comp_apply, Mined.entry,
    and_assoc]

/-- A chain whose blocks can be read, each transaction under its own number and position, and whose
hashes differ by more than letter case. -/
structure Chain where
  block : Int → List Mined
  mined : ∀ {n : Int} {i : Nat} {t : Mined}, (block n)[i]? = some t → t.At n i
  distinct : ∀ {n m : Int} {i k : Nat} {t u : Mined}, (block n)[i]? = some t → (block m)[k]? = some u →
    t.key = u.key → n = m ∧ i = k

namespace Chain

variable {chain : Chain} {n m : Int} {t u : Mined}

/-- The records of the transactions from block `first` to block `last` that touch. -/
def records (chain : Chain) (touching : Int → Mined → Bool) (first last : Int) : List Record :=
  (List.range (last + 1 - first).toNat).flatMap fun i : Nat =>
    ((chain.block (first + i)).filter (touching (first + i))).map (·.record)

theorem at_of_mem (h : t ∈ chain.block n) : ∃ i, t.At n i := by
  obtain ⟨i, hi⟩ := List.mem_iff_getElem?.mp h
  exact ⟨i, chain.mined hi⟩

theorem key_inj (ht : t ∈ chain.block n) (hu : u ∈ chain.block m) (h : t.key = u.key) : n = m ∧ t = u := by
  obtain ⟨i, hi⟩ := List.mem_iff_getElem?.mp ht
  obtain ⟨k, hk⟩ := List.mem_iff_getElem?.mp hu
  obtain ⟨rfl, rfl⟩ := chain.distinct hi hk h
  exact ⟨rfl, Option.some.inj (hi.symm.trans hk)⟩

theorem nodup_keys (chain : Chain) (n : Int) : ((chain.block n).map Mined.key).Nodup := by
  rw [List.Nodup, List.pairwise_map, List.pairwise_iff_getElem]
  intro i k hi hk hik h
  have := chain.distinct (List.getElem?_eq_getElem hi) (List.getElem?_eq_getElem hk) h
  omega

/-! ## Chain order -/

theorem pairwise_block (chain : Chain) (n : Int) :
    (chain.block n).Pairwise fun t u => t.record.index.toInt < u.record.index.toInt := by
  rw [List.pairwise_iff_getElem]
  intro i k hi hk hik
  rw [(chain.mined (List.getElem?_eq_getElem hi)).index, (chain.mined (List.getElem?_eq_getElem hk)).index]
  omega

end Chain
end AssertionReplay
