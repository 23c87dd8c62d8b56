/-
Digits of all scripts: `decimalDigit?` gives the value of a character that
takes part in positional decimal numbers, and `isDigit` holds also of the
characters that merely show a digit.
-/
import AssertionReplay.Text.Basic
import AssertionReplay.Text.DigitTable

namespace AssertionReplay.Text

def inRanges (ranges : List (Nat × Nat)) (n : Nat) : Bool :=
  ranges.any fun r => r.1 ≤ n && n ≤ r.2

/-- The value of a decimal digit of any script. -/
def decimalDigit? (c : Char) : Option Nat :=
  let n := c.toNat
  if n < 128 then
    if 48 ≤ n && n ≤ 57 then some (n - 48) else none
  else
    (decimalDigitRanges.find? fun r => r.1 ≤ n && n ≤ r.2).map fun r => (n - r.1) % 10

/-- Whether the character is a digit at all, positional or not. -/
def isDigit (c : Char) : Bool :=
  (decimalDigit? c).isSome || inRanges otherDigitRanges c.toNat

/-- Whether the text is made of digits, at least one. -/
def allDigits (t : Text) : Bool :=
  !t.isEmpty && t.letters.all (Letter.satisfies isDigit)

end AssertionReplay.Text
