/-
Text in quotes, the way values are shown in messages.

The quote is `'`, or `"` when the text holds `'` and no `"`. The quote in use
and the backslash are escaped by a backslash, line feed, carriage return and
tab have letters of their own, and everything else that is not printable,
lone halves of surrogate pairs with it, is written by its code point in two,
four or eight hexadecimal digits.
-/
import AssertionReplay.Text.Digit
import AssertionReplay.Text.PrintableTable

namespace AssertionReplay.Text

/-- Whether the character is shown as itself. -/
def isPrintable (c : Char) : Bool :=
  let n := c.toNat
  if n < 128 then 32 ≤ n && n ≤ 126 else inRanges printableRanges n

/-- The lower case hexadecimal digit of a value below sixteen. -/
def hexDigit (n : Nat) : Char :=
  Char.ofNat (if n < 10 then 48 + n else 87 + n)

/-- The last `width` hexadecimal digits of `n`. -/
def hexPadded : (width : Nat) → (n : Nat) → List Char
  | 0, _ => []
  | width + 1, n => hexPadded width (n / 16) ++ [hexDigit (n % 16)]

/-- The apostrophe. -/
def singleQuote : Char := Char.ofNat 39

def quoteFor (ls : List Letter) : Char :=
  if ls.contains (.char singleQuote) && !ls.contains (.char '"') then '"' else singleQuote

/-- A code point by its number, in two, four or eight digits. -/
def escapeCode (n : Nat) : List Char :=
  if n < 0x100 then '\\' :: 'x' :: hexPadded 2 n
  else if n < 0x10000 then '\\' :: 'u' :: hexPadded 4 n
  else '\\' :: 'U' :: hexPadded 8 n

def escapeChar (quote c : Char) : List Char :=
  let n := c.toNat
  if c == quote || c == '\\' then ['\\', c]
  else if n == 10 then ['\\', 'n']
  else if n == 13 then ['\\', 'r']
  else if n == 9 then ['\\', 't']
  else if isPrintable c then [c]
  else escapeCode n

def escapeLetter (quote : Char) : Letter → List Char
  | .char c => escapeChar quote c
  | .half offset => escapeCode (Letter.half offset).code

def quoted (t : Text) : String :=
  let quote := quoteFor t.letters
  String.ofList (quote :: (t.letters.flatMap (escapeLetter quote) ++ [quote]))

end AssertionReplay.Text
