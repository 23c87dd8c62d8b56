/-
Whole numbers as text.

A numeral has white space at its ends, a sign, and digits of any script with
single underscores between them; in base sixteen the digits may be led by a
zero of any script and `x` or `X`, with an underscore after it. Decimal
numerals are limited to 4300 digits, in reading (`readInt?`) and in writing
(`decimal?`): the limit counts leading zeros, and hexadecimal numerals have
none.
-/
import AssertionReplay.Text.Blank
import AssertionReplay.Text.Digit

namespace AssertionReplay.Text

/-- How many digits a decimal numeral may have. -/
def decimalDigitLimit : Nat := 4300

/-- The value of a digit in a base up to thirty-six. -/
def digitIn? (base : Nat) (c : Char) : Option Nat :=
  let n := c.toNat
  let value? :=
    if 65 ≤ n && n ≤ 90 then some (n - 55)
    else if 97 ≤ n && n ≤ 122 then some (n - 87)
    else decimalDigit? c
  match value? with
  | some v => if v < base then some v else none
  | none => none

/-- The digits of a numeral after its sign and base mark. An underscore may stand between two
digits. -/
def digits? (base : Nat) : List Char → Option (List Nat)
  | [] => none
  | [c] => (digitIn? base c).map ([·])
  | c :: '_' :: cs =>
    match digitIn? base c, digits? base cs with
    | some d, some ds => some (d :: ds)
    | _, _ => none
  | c :: c' :: cs =>
    match digitIn? base c, digits? base (c' :: cs) with
    | some d, some ds => some (d :: ds)
    | _, _ => none

/-- The number that digits spell, most significant first. -/
def ofDigits (base : Nat) (ds : List Nat) : Nat :=
  ds.foldl (fun n d => n * base + d) 0

/-- The digits after a base mark, which an underscore may separate from it. -/
def markedDigits? (base : Nat) : List Char → Option (List Nat)
  | '_' :: cs => digits? base cs
  | cs => digits? base cs

/-- What follows the mark of base sixteen, if the numeral has one: a zero of any script and an
`x`. -/
def afterHexMark? : List Char → Option (List Char)
  | c :: x :: rest =>
    if decimalDigit? c == some 0 && (x == 'x' || x == 'X') then some rest else none
  | _ => none

/-- The unsigned part of a numeral. -/
def magnitude? (base : Nat) (cs : List Char) : Option Nat :=
  if base == 16 then
    match afterHexMark? cs with
    | some rest => (markedDigits? 16 rest).map (ofDigits 16)
    | none => (digits? 16 cs).map (ofDigits 16)
  else
    match digits? base cs with
    | some ds => if ds.length ≤ decimalDigitLimit then some (ofDigits base ds) else none
    | none => none

/-- Reads the characters of a numeral in base ten or sixteen. -/
def readIntChars? (base : Nat) (cs : List Char) : Option Int :=
  match trimBy isNumeralBlank cs with
  | '-' :: cs => (magnitude? base cs).map fun n => -(n : Int)
  | '+' :: cs => (magnitude? base cs).map fun n => (n : Int)
  | cs => (magnitude? base cs).map fun n => (n : Int)

/-- Reads a numeral in base ten or sixteen; a text with a lone half is none. -/
def readInt? (base : Nat) (t : Text) : Option Int :=
  t.chars?.bind (readIntChars? base)

/-- The digits of a number in a base up to sixteen, most significant first. -/
def digitChars (base : Nat) (n : Nat) : List Char :=
  Nat.toDigits base n

/-- A whole number in decimal digits. -/
def decimal (n : Int) : String :=
  match n with
  | .ofNat m => String.ofList (digitChars 10 m)
  | .negSucc m => String.ofList ('-' :: digitChars 10 (m + 1))

/-- A whole number in decimal digits, if it has no more of them than a numeral may have. -/
def decimal? (n : Int) : Option String :=
  if (digitChars 10 n.natAbs).length ≤ decimalDigitLimit then some (decimal n) else none

/-- A whole number in hexadecimal digits, lower case and led by `0x`. -/
def hexNumeral (n : Int) : String :=
  let sign := if n < 0 then ['-'] else []
  String.ofList (sign ++ '0' :: 'x' :: digitChars 16 n.natAbs)

end AssertionReplay.Text
