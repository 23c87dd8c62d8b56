/-
White space: the twenty-nine characters that are trimmed from the ends of a
text, and the smaller set that may surround a numeral.
-/
import AssertionReplay.Text.Basic

namespace AssertionReplay.Text

/-- White space of any script, with the four information separators. -/
def isBlank (c : Char) : Bool :=
  let n := c.toNat
  (9 ≤ n && n ≤ 13) || (28 ≤ n && n ≤ 32) || n == 0x85 || n == 0xA0 || n == 0x1680 ||
    (0x2000 ≤ n && n ≤ 0x200A) || n == 0x2028 || n == 0x2029 || n == 0x202F || n == 0x205F ||
    n == 0x3000

/-- White space around a numeral: the information separators do not count. -/
def isNumeralBlank (c : Char) : Bool :=
  isBlank c && !(28 ≤ c.toNat && c.toNat ≤ 31)

/-- The white space that hexadecimal byte text may have between its bytes: ASCII only. -/
def isAsciiBlank (c : Char) : Bool :=
  c.toNat == 32 || (9 ≤ c.toNat && c.toNat ≤ 13)

def dropRightWhile {α : Type} (p : α → Bool) (xs : List α) : List α :=
  (xs.reverse.dropWhile p).reverse

/-- Drops what satisfies `p` from both ends. -/
def trimBy {α : Type} (p : α → Bool) (xs : List α) : List α :=
  dropRightWhile p (xs.dropWhile p)

/-- The text without the white space at its ends. -/
def trim (t : Text) : Text :=
  ⟨trimBy (Letter.satisfies isBlank) t.letters⟩

end AssertionReplay.Text
