/-
Writing a value as text, without spaces.

A `Style` fixes what the format leaves open: whether members are sorted by
name, and whether characters beyond printable ASCII are escaped. Half of a
surrogate pair is always escaped.
-/
import AssertionReplay.Json.Basic
import AssertionReplay.Text.Quoted

namespace AssertionReplay.Json

open Text

structure Style where
  sorted : Bool
  asciiOnly : Bool

/-- Members sorted by name, characters as they are: one text for one value. -/
def canonical : Style := ⟨true, false⟩

/-- Members in their own order, every character printable ASCII. -/
def ascii : Style := ⟨false, true⟩

def unicodeEscape (n : Nat) : List Char :=
  '\\' :: 'u' :: hexPadded 4 n

/-- A character beyond what stands for itself, as one or two escaped code units. -/
def escapeUnits (n : Nat) : List Char :=
  if n < 0x10000 then unicodeEscape n
  else
    let m := n - 0x10000
    unicodeEscape (0xD800 + m / 0x400) ++ unicodeEscape (0xDC00 + m % 0x400)

def stringChar (style : Style) (c : Char) : List Char :=
  let n := c.toNat
  if c == '"' then ['\\', '"']
  else if c == '\\' then ['\\', '\\']
  else if n == 10 then ['\\', 'n']
  else if n == 13 then ['\\', 'r']
  else if n == 9 then ['\\', 't']
  else if n == 12 then ['\\', 'f']
  else if n == 8 then ['\\', 'b']
  else if n < 32 then unicodeEscape n
  else if style.asciiOnly && 126 < n then escapeUnits n
  else [c]

def stringLetter (style : Style) : Letter → List Char
  | .char c => stringChar style c
  | .half offset => unicodeEscape (Letter.half offset).code

def stringText (style : Style) (t : Text) : String :=
  String.ofList ('"' :: (t.letters.flatMap (stringLetter style) ++ ['"']))

def floatText : Binary64 → String
  | .nan _ => "NaN"
  | .infinite s => if s then "-Infinity" else "Infinity"
  | x => x.shortest

/-- Members with their written values, in the order of the style. -/
def arrange (style : Style) (members : List (Text × String)) : List (Text × String) :=
  if style.sorted then members.mergeSort fun a b => Text.atOrBefore a.1.letters b.1.letters
  else members

mutual

def write (style : Style) : Json → String
  | null => "null"
  | bool true => "true"
  | bool false => "false"
  | int n => decimal n
  | float x => floatText x
  | str t => stringText style t
  | arr items => "[" ++ ",".intercalate (writeItems style items) ++ "]"
  | obj members =>
    "\x7b" ++ ",".intercalate ((arrange style (writeMembers style members)).map fun m =>
      stringText style m.1 ++ ":" ++ m.2) ++ "\x7d"

def writeItems (style : Style) : List Json → List String
  | [] => []
  | v :: vs => write style v :: writeItems style vs

def writeMembers (style : Style) : List (Text × Json) → List (Text × String)
  | [] => []
  | (name, v) :: rest => (name, write style v) :: writeMembers style rest

end

end AssertionReplay.Json
