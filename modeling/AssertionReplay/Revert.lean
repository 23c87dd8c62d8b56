/-
The reason in the return data of a failed execution: a panic code, a text, or
the selector of an error that is neither.
-/
import AssertionReplay.Abi
import AssertionReplay.Field

namespace AssertionReplay.Revert

open Text

/-- The selector of a panic, which carries a number. -/
def panicSelector : Bytes := [0x4e, 0x48, 0x7b, 0x71]

/-- The selector of an error that carries a text. -/
def errorSelector : Bytes := [0x08, 0xc3, 0x79, 0xa0]

def panicReasons : List (Nat × String) :=
  [(0x00, "generic compiler panic"), (0x01, "assertion failed"),
    (0x11, "arithmetic overflow or underflow"), (0x12, "division or modulo by zero"),
    (0x21, "invalid enum value"), (0x22, "invalid storage byte array access"),
    (0x31, "pop on empty array"), (0x32, "array out-of-bounds access"), (0x41, "out of memory"),
    (0x51, "uninitialized function pointer")]

/-- A code in lower case hexadecimal digits, at least two. -/
def codeText (code : Nat) : String :=
  let ds := digitChars 16 code
  String.ofList (if ds.length < 2 then '0' :: ds else ds)

def panicText (code : Nat) : String :=
  match panicReasons.lookup code with
  | some reason => "Panic: " ++ reason
  | none => "Panic: unknown code 0x" ++ codeText code

def customText (selector : Bytes) : String :=
  "Custom error: " ++ Field.hexOfBytes selector

/-- The reason as text. -/
def reason (data : Bytes) : Except Fault String :=
  if data.length < 4 then .ok "Unknown error"
  else
    let selector := data.take 4
    let body := data.drop 4
    if selector == panicSelector then
      match Abi.number? body with
      | some code => .ok (panicText code)
      | none => .ok (customText selector)
    else if selector == errorSelector then
      (Abi.text? body).map fun text? => text?.getD (customText selector)
    else .ok (customText selector)

end AssertionReplay.Revert
