/-
The strict layout of contract call data for one number or one text.

A number is a word of 32 bytes. A text is a word with the offset of its tail;
the tail is a word with the length in bytes, and the bytes with zeros up to a
multiple of 32. Reading refuses an offset that points before the tail or
beyond the data, a length beyond the data, padding that is not zero and bytes
that are no UTF-8; bytes after the value do not matter.
-/
import AssertionReplay.Fault
import AssertionReplay.Text.Hex

namespace AssertionReplay.Abi

/-- How many bytes a word has. -/
def wordSize : Nat := 32

/-- The number that bytes spell, most significant first. -/
def ofBytes (bs : Bytes) : Nat :=
  bs.foldl (fun n b => n * 256 + b.toNat) 0

/-- The word at an offset, if all of it is there. -/
def word? (body : Bytes) (offset : Nat) : Option Nat :=
  let w := (body.drop offset).take wordSize
  if w.length == wordSize then some (ofBytes w) else none

/-- The least multiple of a word that holds so many bytes. -/
def padded (length : Nat) : Nat :=
  (length + (wordSize - 1)) / wordSize * wordSize

/-- Padded lengths from here on cannot be asked for. -/
def lengthLimit : Nat := Nat.pow 2 63

/-- The text that bytes spell in UTF-8. -/
def utf8? (bs : Bytes) : Option String :=
  String.fromUTF8? ⟨bs.toArray⟩

/-- The bytes of a text whose tail is at an offset. -/
def tail? (body : Bytes) (offset : Nat) : Except Fault (Option Bytes) :=
  match word? body offset with
  | none => .ok none
  | some length =>
    if lengthLimit ≤ padded length then .error .outOfRange
    else
      let rest := body.drop (offset + wordSize)
      if rest.length < padded length then .ok none
      else if ((rest.take (padded length)).drop length).all (· == 0) then
        .ok (some (rest.take length))
      else .ok none

/-- Reads a number. -/
def number? (body : Bytes) : Option Nat := word? body 0

/-- Reads a text. -/
def text? (body : Bytes) : Except Fault (Option String) :=
  match word? body 0 with
  | none => .ok none
  | some offset =>
    if offset < wordSize || body.length ≤ offset then .ok none
    else (tail? body offset).map fun bytes? => bytes?.bind utf8?

end AssertionReplay.Abi
