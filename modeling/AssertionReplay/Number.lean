/-
The numbers of records and run parameters.

A `Quantity` is a whole number or a truth value that stands for one; it is
shown as it was given. A `Number` may also be a binary64 number. Comparisons
between the kinds are exact, and arithmetic is exact on quantities and
rounded as soon as a binary64 number takes part.
-/
import AssertionReplay.Binary64.Printer

namespace AssertionReplay

open Text

inductive Quantity where
  | int (n : Int)
  | flag (b : Bool)
  deriving DecidableEq

namespace Quantity

def toInt : Quantity → Int
  | int n => n
  | flag b => if b then 1 else 0

/-- The quantity as text: decimal digits, or the name of the truth value. None beyond the digit
limit. -/
def text? : Quantity → Option String
  | int n => decimal? n
  | flag true => some "True"
  | flag false => some "False"

end Quantity

inductive Number where
  | whole (q : Quantity)
  | real (x : Binary64)
  deriving DecidableEq

namespace Number

/-- A whole number. -/
def int (n : Int) : Number := whole (.int n)

/-- The order of two numbers, exactly; none when one is not a number. -/
def order? : Number → Number → Option Ordering
  | whole a, whole b => some (compare a.toInt b.toInt)
  | real x, whole b => x.orderInt? b.toInt
  | whole a, real y => (y.orderInt? a.toInt).map Ordering.swap
  | real x, real y => x.order? y

def lt (a b : Number) : Bool := a.order? b == some .lt

def eq (a b : Number) : Bool := a.order? b == some .eq

/-- At most; false, as every comparison is, when one is not a number. -/
def le (a b : Number) : Bool := a.lt b || a.eq b

/-- The whole number that the number is or stands for; none for a binary64 number. -/
def index? : Number → Option Int
  | whole q => some q.toInt
  | real _ => none

/-- The whole number toward zero; none for an infinity and for what is no number. -/
def truncate? : Number → Option Int
  | whole q => some q.toInt
  | real x => x.truncate?

/-- The number as binary64; none for a whole number beyond its range. -/
def toBinary64? : Number → Option Binary64
  | real x => some x
  | whole q =>
    match Binary64.ofInt q.toInt with
    | .infinite _ => none
    | x => some x

/-- The sum; none when a whole number is beyond the range of the binary64 number it meets. -/
def add? (a b : Number) : Option Number :=
  match a, b with
  | whole p, whole q => some (int (p.toInt + q.toInt))
  | _, _ => do return real (Binary64.add (← a.toBinary64?) (← b.toBinary64?))

/-- The difference, with the same exception. -/
def sub? (a b : Number) : Option Number :=
  match a, b with
  | whole p, whole q => some (int (p.toInt - q.toInt))
  | _, _ => do return real (Binary64.sub (← a.toBinary64?) (← b.toBinary64?))

/-- The number in full; none beyond the digit limit. -/
def text? : Number → Option String
  | whole q => q.text?
  | real x => some x.shortest

end Number
end AssertionReplay
