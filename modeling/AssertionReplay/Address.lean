/-
Account addresses in their checksummed form.

An address is forty hexadecimal digits after `0x`, and the letter case of each
digit carries a bit of a hash of the lower case digits. `parseWith` takes the
hash as a parameter, since nothing but letter case depends on it. Two raw
addresses are the same (`same`) if they differ in letter case only.
-/
import AssertionReplay.Fault
import AssertionReplay.Keccak
import AssertionReplay.Text.Lowercase

namespace AssertionReplay.Address

open Text

/-- The address that stands for none: the recipient of a contract creation. -/
def zero : String := "0x0000000000000000000000000000000000000000"

/-- The hash that fixes letter case: from the lower case digits, four bits for each digit. -/
abbrev CaseHash := List Char → List Nat

/-- The upper case form of a lower case hexadecimal digit. -/
def upperDigit (c : Char) : Char :=
  if 97 ≤ c.toNat && c.toNat ≤ 122 then Char.ofNat (c.toNat - 32) else c

/-- The lower case form of a hexadecimal digit. -/
def lowerDigit (c : Char) : Char :=
  if 65 ≤ c.toNat && c.toNat ≤ 90 then Char.ofNat (c.toNat + 32) else c

/-- Lower case digits, with those in upper case whose four bits are eight or more. -/
def applyCase : List Char → List Nat → List Char
  | [], _ => []
  | c :: cs, n :: ns => (if 8 ≤ n then upperDigit c else c) :: applyCase cs ns
  | c :: cs, [] => c :: applyCase cs []

def isHexDigit (c : Char) : Bool := (hexValue? c).isSome

/-- The digits of an address, which may be led by `0x` or `0X`; none if they are not forty. -/
def digits? (cs : List Char) : Option (List Char) :=
  let digits := match cs with
    | '0' :: 'x' :: rest => rest
    | '0' :: 'X' :: rest => rest
    | _ => cs
  if digits.length == 40 && digits.all isHexDigit then some digits else none

/-- The checksummed form of forty digits. -/
def checksummed (hash : CaseHash) (digits : List Char) : String :=
  let lowered := digits.map lowerDigit
  String.ofList ('0' :: 'x' :: applyCase lowered (hash lowered))

/-- The checksummed form of a text with white space around an address; none if it is no address. -/
def ofText? (hash : CaseHash) (t : Text) : Option String :=
  ((trim t).chars?.bind digits?).map (checksummed hash)

/-- The checksummed form of a raw address, and the zero address for one that is not given. -/
def parseWith (hash : CaseHash) (v : Json) : Except Fault String :=
  if !v.isGiven then .ok zero
  else
    match v with
    | .str t =>
      match ofText? hash t with
      | some a => .ok a
      | none => .error (.value .unreadable)
    | _ => .error .noSuchPart

/-- Keccak-256 of the digits as ASCII text, in steps of four bits. -/
def keccakCase : CaseHash := fun digits =>
  (Keccak.hash256 (digits.map fun c => UInt8.ofNat c.toNat)).flatMap fun b =>
    [b.toNat / 16, b.toNat % 16]

def parse (v : Json) : Except Fault String := parseWith keccakCase v

def parseText (t : Text) : Except Fault String := parse (.str t)

/-- The lower case form of a value that must be text. -/
def lowered : Json → Except Fault Text
  | .str t => .ok (lower t)
  | _ => .error .noSuchPart

/-- Whether two raw addresses are both given and equal up to letter case. -/
def same (a b : Json) : Except Fault Bool :=
  if !a.isGiven || !b.isGiven then .ok false
  else do
    let a ← lowered a
    let b ← lowered b
    return a == b

end AssertionReplay.Address
