/-
Binary64 numbers: sign, significand and exponent, with exact arithmetic.

A finite number is `± significand * 2^exponent`. `ofRatio` rounds a quotient
of natural numbers to the nearest number, a tie to the even significand, and
every operation is its exact result rounded so. The form that `ofRatio` gives
is the normal one: the significand is below `2^53`, and it is at least `2^52`
unless the exponent is the least one, -1074.

What is no number has a sign bit too. An operation hands on the first of its
operands that is none, and one without a result gives the one with the sign
bit set (`undefined`).
-/

namespace AssertionReplay

inductive Binary64 where
  | nan (negative : Bool)
  | infinite (negative : Bool)
  | finite (negative : Bool) (significand : Nat) (exponent : Int)
  deriving DecidableEq

namespace Binary64

/-- The least exponent of a significand. -/
def minExponent : Int := -1074

/-- The greatest exponent of a significand. -/
def maxExponent : Int := 971

def zero : Binary64 := finite false 0 minExponent

/-- The outcome of an operation that has no result. -/
def undefined : Binary64 := nan true

/-- `n / d` rounded to a whole number, a tie to the even one. -/
def divHalfEven (n d : Nat) : Nat :=
  let q := n / d
  let r := 2 * (n % d)
  if r < d then q
  else if d < r then q + 1
  else q + q % 2

/-- `n * 2^-e / d` as a quotient of natural numbers. -/
def scaledRatio (n d : Nat) (e : Int) : Nat × Nat :=
  if e < 0 then (n * Nat.pow 2 (-e).toNat, d) else (n, d * Nat.pow 2 e.toNat)

/-- The exponent in whose unit the quotient has 53 significant bits, or the least exponent. -/
def exponentFor (n d : Nat) : Int :=
  let guess : Int := (n.log2 : Int) - d.log2 - 52
  let (a, b) := scaledRatio n d guess
  max minExponent (if a < b * Nat.pow 2 52 then guess - 1 else guess)

/-- The number nearest to `± n / d`. -/
def ofRatio (negative : Bool) (n d : Nat) : Binary64 :=
  if n == 0 || d == 0 then finite negative 0 minExponent
  else
    let e := exponentFor n d
    let (a, b) := scaledRatio n d e
    let m := divHalfEven a b
    let (m, e) := if m == Nat.pow 2 53 then (Nat.pow 2 52, e + 1) else (m, e)
    if maxExponent < e then infinite negative else finite negative m e

/-- The number nearest to `n * 2^e`; zero is positive. -/
def ofDyadic (n : Int) (e : Int) : Binary64 :=
  let (a, b) := scaledRatio n.natAbs 1 (-e)
  ofRatio (n < 0) a b

def ofInt (n : Int) : Binary64 :=
  ofRatio (n < 0) n.natAbs 1

def isNegative : Binary64 → Bool
  | nan s => s
  | infinite s => s
  | finite s _ _ => s

def isZero : Binary64 → Bool
  | finite _ m _ => m == 0
  | _ => false

def isNaN : Binary64 → Bool
  | nan _ => true
  | _ => false

/-- The significand with its sign. -/
def signed (negative : Bool) (m : Nat) : Int :=
  if negative then -(m : Int) else m

/-- The number with the other sign; what is no number stays as it is. -/
def neg : Binary64 → Binary64
  | nan s => nan s
  | infinite s => infinite (!s)
  | finite s m e => finite (!s) m e

/-- The sum. Opposite infinities have none, and a sum that cancels is the positive zero. -/
def add : Binary64 → Binary64 → Binary64
  | nan s, _ => nan s
  | _, nan t => nan t
  | infinite s, infinite t => if s == t then infinite s else undefined
  | infinite s, finite .. => infinite s
  | finite .., infinite t => infinite t
  | finite s m e, finite t n f =>
    if m == 0 && n == 0 then finite (s && t) 0 minExponent
    else
      let g := min e f
      ofDyadic (signed s m * Int.pow 2 (e - g).toNat + signed t n * Int.pow 2 (f - g).toNat) g

def sub (x y : Binary64) : Binary64 := add x y.neg

/-- The product. Zero times an infinity has none. -/
def mul : Binary64 → Binary64 → Binary64
  | nan s, _ => nan s
  | _, nan t => nan t
  | infinite s, y => if y.isZero then undefined else infinite (s != y.isNegative)
  | x, infinite t => if x.isZero then undefined else infinite (x.isNegative != t)
  | finite s m e, finite t n f =>
    let (a, b) := scaledRatio (m * n) 1 (-(e + f))
    ofRatio (s != t) a b

/-- The quotient. -/
def div : Binary64 → Binary64 → Binary64
  | nan s, _ => nan s
  | _, nan t => nan t
  | infinite _, infinite _ => undefined
  | infinite s, y => infinite (s != y.isNegative)
  | x, infinite t => finite (x.isNegative != t) 0 minExponent
  | finite s m e, finite t n f =>
    if n == 0 then if m == 0 then undefined else infinite (s != t)
    else
      let (a, b) := scaledRatio m n (f - e)
      ofRatio (s != t) a b

/-- The order of `m * 2^e` and `n * 2^f`. -/
def compareDyadic (m : Int) (e : Int) (n : Int) (f : Int) : Ordering :=
  let g := min e f
  compare (m * Int.pow 2 (e - g).toNat) (n * Int.pow 2 (f - g).toNat)

/-- The order of two numbers; none when one is not a number. -/
def order? : Binary64 → Binary64 → Option Ordering
  | nan _, _ | _, nan _ => none
  | infinite s, infinite t =>
    some (if s == t then .eq else if s then .lt else .gt)
  | infinite s, finite .. => some (if s then .lt else .gt)
  | finite .., infinite t => some (if t then .gt else .lt)
  | finite s m e, finite t n f => some (compareDyadic (signed s m) e (signed t n) f)

/-- The order of a number and a whole number, exactly. -/
def orderInt? (x : Binary64) (n : Int) : Option Ordering :=
  match x with
  | nan _ => none
  | infinite s => some (if s then .lt else .gt)
  | finite s m e => some (compareDyadic (signed s m) e n 0)

/-- The whole number toward zero; none for an infinity and for what is no number. -/
def truncate? : Binary64 → Option Int
  | finite s m e =>
    some (signed s (if e < 0 then m / Nat.pow 2 (-e).toNat else m * Nat.pow 2 e.toNat))
  | _ => none

/-- The 64 bits of the interchange format. -/
def toBits : Binary64 → Nat
  | nan s => (if s then Nat.pow 2 63 else 0) + 0x7FF8000000000000
  | infinite s => (if s then Nat.pow 2 63 else 0) + 0x7FF0000000000000
  | finite s m e =>
    (if s then Nat.pow 2 63 else 0) +
      if m < Nat.pow 2 52 then m
      else (e - minExponent + 1).toNat * Nat.pow 2 52 + (m - Nat.pow 2 52)

end Binary64
end AssertionReplay
