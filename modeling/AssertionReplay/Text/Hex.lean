/-
Bytes as hexadecimal text: two digits a byte, lower case when written, either
case when read. Between bytes, but not inside one, ASCII white space is
skipped.
-/
import AssertionReplay.Text.Blank
import AssertionReplay.Text.Quoted

namespace AssertionReplay

/-- A string of bytes. -/
abbrev Bytes := List UInt8

namespace Text

/-- The value of an ASCII hexadecimal digit of either case. -/
def hexValue? (c : Char) : Option Nat :=
  let n := c.toNat
  if 48 ≤ n && n ≤ 57 then some (n - 48)
  else if 97 ≤ n && n ≤ 102 then some (n - 87)
  else if 65 ≤ n && n ≤ 70 then some (n - 55)
  else none

def byteDigits (b : UInt8) : List Char :=
  [hexDigit (b.toNat / 16), hexDigit (b.toNat % 16)]

/-- Two digits a byte. -/
def encodeHex (bs : Bytes) : List Char :=
  bs.flatMap byteDigits

/-- Reads bytes of two digits each, with white space allowed before each and after the last. -/
def decodeHex? : List Char → Option Bytes
  | [] => some []
  | [c] => if isAsciiBlank c then some [] else none
  | c :: d :: cs =>
    if isAsciiBlank c then decodeHex? (d :: cs)
    else
      match hexValue? c, hexValue? d with
      | some hi, some lo => (decodeHex? cs).map (UInt8.ofNat (hi * 16 + lo) :: ·)
      | _, _ => none

end Text
end AssertionReplay
