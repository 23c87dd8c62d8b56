/-
Decimal text read as a binary64 number.

A numeral is digits with an optional point and exponent; its value is rounded
once. `read?` also takes white space at the ends, a sign, single underscores
between digits, digits of any script, and the names of the infinities and of
what is no number, in any letter case.
-/
import AssertionReplay.Binary64.Basic
import AssertionReplay.Text.Numeral

namespace AssertionReplay.Binary64

open Text

/-- The number nearest to `± digits * 10^exponent`. Exponents beyond any number's range are settled
without computing the power. -/
def ofDecimal (negative : Bool) (digits : Nat) (exponent : Int) : Binary64 :=
  let length : Int := (digitChars 10 digits).length
  if digits == 0 || exponent + length < -400 then finite negative 0 minExponent
  else if 400 < exponent + length then infinite negative
  else if exponent < 0 then ofRatio negative digits (Nat.pow 10 (-exponent).toNat)
  else ofRatio negative (digits * Nat.pow 10 exponent.toNat) 1

/-- A part of a decimal numeral: digits with single underscores between them, or nothing. -/
def digitsOrNone? : List Char → Option (List Nat)
  | [] => some []
  | cs => digits? 10 cs

/-- The exponent of a numeral, after its letter. -/
def exponent? : List Char → Option Int
  | '-' :: cs => (digits? 10 cs).map fun ds => -(ofDigits 10 ds : Int)
  | '+' :: cs => (digits? 10 cs).map fun ds => (ofDigits 10 ds : Int)
  | cs => (digits? 10 cs).map fun ds => (ofDigits 10 ds : Int)

/-- Splits at the first character that satisfies `p`, which is dropped. -/
def splitAtFirst (p : Char → Bool) (cs : List Char) : List Char × Option (List Char) :=
  match cs.dropWhile (fun c => !p c) with
  | [] => (cs, none)
  | _ :: rest => (cs.takeWhile fun c => !p c, some rest)

/-- The unsigned part of a numeral. -/
def readMagnitude? (negative : Bool) (cs : List Char) : Option Binary64 := do
  let (body, mark?) := splitAtFirst (fun c => c == 'e' || c == 'E') cs
  let exponent ← match mark? with
    | some cs => exponent? cs
    | none => some 0
  let (whole, fraction?) := splitAtFirst (· == '.') body
  let ws ← digitsOrNone? whole
  let fs ← digitsOrNone? (fraction?.getD [])
  if ws.isEmpty && fs.isEmpty then none
  else some (ofDecimal negative (ofDigits 10 (ws ++ fs)) (exponent - fs.length))

def asciiLower (c : Char) : Char :=
  if 65 ≤ c.toNat && c.toNat ≤ 90 then Char.ofNat (c.toNat + 32) else c

def readUnsigned? (negative : Bool) (cs : List Char) : Option Binary64 :=
  let name := String.ofList (cs.map asciiLower)
  if name == "inf" || name == "infinity" then some (infinite negative)
  else if name == "nan" then some (nan negative)
  else readMagnitude? negative cs

/-- Reads the characters of a numeral. -/
def readChars? (cs : List Char) : Option Binary64 :=
  match trimBy isNumeralBlank cs with
  | '-' :: cs => readUnsigned? true cs
  | '+' :: cs => readUnsigned? false cs
  | cs => readUnsigned? false cs

/-- Reads a numeral; a text with a lone half is none. -/
def read? (t : Text) : Option Binary64 :=
  t.chars?.bind readChars?

end AssertionReplay.Binary64
