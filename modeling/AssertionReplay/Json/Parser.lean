/-
Reading a value from text.

`Json.parse?` refuses what is not one value with white space around it. The
names `NaN`, `Infinity` and `-Infinity` are numbers, control characters must
be escaped, and a number without point and exponent may have as many digits as
a decimal numeral. Two escaped surrogates that form a pair are one character;
one without its other half is a letter of its own. A half that stands in the
text itself is taken as it is inside quotes, and nowhere else.

The recursion is bounded by a count that every step lowers and that is taken
from the length of the text, of which every second step at least consumes a
letter.
-/
import AssertionReplay.Binary64.Numeral
import AssertionReplay.Json.Basic
import AssertionReplay.Text.Hex

namespace AssertionReplay.Json

open Text

def isSpace (c : Char) : Bool :=
  c == ' ' || c == '\t' || c == '\n' || c == '\r'

def skipSpace (ls : List Letter) : List Letter :=
  ls.dropWhile (Letter.satisfies isSpace)

/-- Four hexadecimal digits. -/
def hex4? : List Letter → Option (Nat × List Letter)
  | .char a :: .char b :: .char c :: .char d :: rest => do
    let a ← hexValue? a
    let b ← hexValue? b
    let c ← hexValue? c
    let d ← hexValue? d
    some (((a * 16 + b) * 16 + c) * 16 + d, rest)
  | _ => none

def isHighSurrogate (n : Nat) : Bool := 0xD800 ≤ n && n ≤ 0xDBFF

def isLowSurrogate (n : Nat) : Bool := 0xDC00 ≤ n && n ≤ 0xDFFF

/-- The letter of an escaped code unit, with what follows it: the first half of a pair takes the
second one along. -/
def unitLetter (n : Nat) (rest : List Letter) : Letter × List Letter :=
  let alone := (Letter.ofUnit n, rest)
  if !isHighSurrogate n then alone
  else
    match rest with
    | .char '\\' :: .char 'u' :: more =>
      match hex4? more with
      | some (m, after) =>
        if isLowSurrogate m then
          (.char (Char.ofNat (0x10000 + (n - 0xD800) * 0x400 + (m - 0xDC00))), after)
        else alone
      | none => alone
    | _ => alone

/-- The character that a letter after a backslash stands for. -/
def escape? : Char → Option Char
  | '"' => some '"'
  | '\\' => some '\\'
  | '/' => some '/'
  | 'b' => some (Char.ofNat 8)
  | 'f' => some (Char.ofNat 12)
  | 'n' => some '\n'
  | 'r' => some '\r'
  | 't' => some '\t'
  | _ => none

/-- The rest of a string after its opening quote; `done` is what was read, last letter first. -/
def stringBody? : (fuel : Nat) → (done : List Letter) → List Letter →
    Option (List Letter × List Letter)
  | 0, _, _ => none
  | fuel + 1, done, ls =>
    match ls with
    | [] => none
    | .char '"' :: rest => some (done.reverse, rest)
    | .char '\\' :: .char 'u' :: rest =>
      match hex4? rest with
      | none => none
      | some (n, rest) =>
        let (letter, rest) := unitLetter n rest
        stringBody? fuel (letter :: done) rest
    | .char '\\' :: .char e :: rest =>
      match escape? e with
      | some c => stringBody? fuel (.char c :: done) rest
      | none => none
    | letter :: rest =>
      if letter.code < 32 || letter == .char '\\' then none
      else stringBody? fuel (letter :: done) rest

def string? (ls : List Letter) : Option (Text × List Letter) :=
  (stringBody? (ls.length + 1) [] ls).map fun (letters, rest) => (⟨letters⟩, rest)

def isDigitChar (c : Char) : Bool :=
  48 ≤ c.toNat && c.toNat ≤ 57

/-- The values of the digits at the head, and what follows them. -/
def leadingDigits (ls : List Letter) : List Nat × List Letter :=
  let isDigit := Letter.satisfies isDigitChar
  ((ls.takeWhile isDigit).map fun l => l.code - 48, ls.dropWhile isDigit)

/-- The whole part of a number: a zero, or digits that do not start with one. -/
def wholePart? (ls : List Letter) : Option (List Nat × List Letter) :=
  match ls with
  | .char '0' :: rest => some ([0], rest)
  | _ =>
    match leadingDigits ls with
    | ([], _) => none
    | split => some split

/-- A point and digits, if they are there. -/
def fractionPart (ls : List Letter) : List Nat × List Letter :=
  match ls with
  | .char '.' :: rest =>
    match leadingDigits rest with
    | ([], _) => ([], ls)
    | split => split
  | _ => ([], ls)

/-- The digits of an exponent after its letter and sign. -/
def exponentDigits (negative : Bool) (ls : List Letter) : Option (Int × List Letter) :=
  match leadingDigits ls with
  | ([], _) => none
  | (ds, rest) =>
    let n : Int := (ofDigits 10 ds : Nat)
    some (if negative then -n else n, rest)

/-- A letter e, a sign and digits, if they are there. -/
def exponentPart (ls : List Letter) : Option Int × List Letter :=
  let split := match ls with
    | .char e :: rest =>
      if e == 'e' || e == 'E' then
        match rest with
        | .char '-' :: rest => exponentDigits true rest
        | .char '+' :: rest => exponentDigits false rest
        | _ => exponentDigits false rest
      else none
    | _ => none
  match split with
  | some (n, rest) => (some n, rest)
  | none => (none, ls)

/-- A number after its sign. -/
def unsigned? (negative : Bool) (ls : List Letter) : Option (Json × List Letter) := do
  let (whole, rest) ← wholePart? ls
  let (fraction, rest) := fractionPart rest
  let (exponent?, rest) := exponentPart rest
  let value := ofDigits 10
  if fraction.isEmpty && exponent?.isNone then
    if decimalDigitLimit < whole.length then none
    else some (int (if negative then -(value whole : Int) else value whole), rest)
  else
    let x := Binary64.ofDecimal negative (value (whole ++ fraction))
      (exponent?.getD 0 - fraction.length)
    some (float x, rest)

/-- The rest of the text after a word, if it starts with it. -/
def afterWord? (word : Text) (ls : List Letter) : Option (List Letter) :=
  if word.letters.isPrefixOf ls then some (ls.drop word.length) else none

/-- A value that is neither text nor made of values. -/
def scalar? (ls : List Letter) : Option (Json × List Letter) :=
  match ls with
  | .char 'n' :: _ => (afterWord? "null" ls).map (null, ·)
  | .char 't' :: _ => (afterWord? "true" ls).map (bool true, ·)
  | .char 'f' :: _ => (afterWord? "false" ls).map (bool false, ·)
  | .char 'N' :: _ => (afterWord? "NaN" ls).map (float (.nan false), ·)
  | .char 'I' :: _ => (afterWord? "Infinity" ls).map (float (.infinite false), ·)
  | .char '-' :: .char 'I' :: _ => (afterWord? "-Infinity" ls).map (float (.infinite true), ·)
  | .char '-' :: rest => unsigned? true rest
  | _ => unsigned? false ls

mutual

/-- A value at the head of the text, with what follows it. -/
def value? : (fuel : Nat) → List Letter → Option (Json × List Letter)
  | 0, _ => none
  | fuel + 1, ls =>
    match ls with
    | .char '"' :: rest => (string? rest).map fun (s, rest) => (str s, rest)
    | .char '[' :: rest =>
      match skipSpace rest with
      | .char ']' :: rest => some (arr [], rest)
      | rest => (items? fuel rest []).map fun (vs, rest) => (arr vs, rest)
    | .char '\x7b' :: rest =>
      match skipSpace rest with
      | .char '\x7d' :: rest => some (obj [], rest)
      | rest => (members? fuel rest []).map fun (ms, rest) => (obj ms, rest)
    | _ => scalar? ls

/-- The values of an array up to its end; `done` holds the ones read, last first. -/
def items? : (fuel : Nat) → List Letter → (done : List Json) →
    Option (List Json × List Letter)
  | 0, _, _ => none
  | fuel + 1, ls, done =>
    match value? fuel ls with
    | none => none
    | some (v, rest) =>
      match skipSpace rest with
      | .char ',' :: rest => items? fuel (skipSpace rest) (v :: done)
      | .char ']' :: rest => some ((v :: done).reverse, rest)
      | _ => none

/-- The members of an object up to its end; `done` holds the ones read. -/
def members? : (fuel : Nat) → List Letter → (done : List (Text × Json)) →
    Option (List (Text × Json) × List Letter)
  | 0, _, _ => none
  | fuel + 1, ls, done =>
    match ls with
    | .char '"' :: rest =>
      match string? rest with
      | none => none
      | some (name, rest) =>
        match skipSpace rest with
        | .char ':' :: rest =>
          match value? fuel (skipSpace rest) with
          | none => none
          | some (v, rest) =>
            match skipSpace rest with
            | .char ',' :: rest => members? fuel (skipSpace rest) (OrderedMap.insert done name v)
            | .char '\x7d' :: rest => some (OrderedMap.insert done name v, rest)
            | _ => none
        | _ => none
    | _ => none

end

/-- Reads a text that is one value. -/
def parse? (t : Text) : Option Json :=
  match value? (2 * t.length + 2) (skipSpace t.letters) with
  | some (v, rest) => if (skipSpace rest).isEmpty then some v else none
  | none => none

end AssertionReplay.Json
