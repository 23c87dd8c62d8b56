/-
Values as they appear in messages.

`display` shows a text as it is and every other value as `quoted` does;
`quoted` puts text in quotes, lists in square brackets and objects in braces,
with `None`, `True` and `False` for the three names. A value with a number of
too many digits cannot be shown (`isShowable`).
-/
import AssertionReplay.Json.Basic
import AssertionReplay.Text.Quoted

namespace AssertionReplay.Json

open Text

/-- Texts in brackets with commas between them. -/
def bracketed (items : List String) : String :=
  "[" ++ ", ".intercalate items ++ "]"

mutual

def quoted : Json → String
  | null => "None"
  | bool true => "True"
  | bool false => "False"
  | int n => decimal n
  | float x => x.shortest
  | str t => Text.quoted t
  | arr items => bracketed (quotedItems items)
  | obj members => "\x7b" ++ ", ".intercalate (quotedMembers members) ++ "\x7d"

def quotedItems : List Json → List String
  | [] => []
  | v :: vs => quoted v :: quotedItems vs

def quotedMembers : List (Text × Json) → List String
  | [] => []
  | (name, v) :: rest => (Text.quoted name ++ ": " ++ quoted v) :: quotedMembers rest

end

def display : Json → Text
  | str t => t
  | v => quoted v

mutual

/-- Whether every number in the value has a numeral. -/
def isShowable : Json → Bool
  | int n => (decimal? n).isSome
  | arr items => areShowable items
  | obj members => areMembersShowable members
  | _ => true

def areShowable : List Json → Bool
  | [] => true
  | v :: vs => isShowable v && areShowable vs

def areMembersShowable : List (Text × Json) → Bool
  | [] => true
  | (_, v) :: rest => isShowable v && areMembersShowable rest

end

end AssertionReplay.Json
