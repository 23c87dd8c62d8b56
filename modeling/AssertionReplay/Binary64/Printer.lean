/-
Binary64 numbers as decimal text.

`shortestDigits` finds the fewest digits that read back as the number: for
one digit, two digits, and so on, the two neighbours of the value on that
decimal grid are tested against the interval of reals that round to it, and
of two hits the nearer is taken. `shortest` writes them positionally from
`1e-4` up to below `1e16`, and with an exponent of at least two digits
elsewhere. `fixed` and `general` round the exact value to a number of places
or of significant digits, a tie to the even digit.
-/
import AssertionReplay.Binary64.Basic
import AssertionReplay.Text.Numeral

namespace AssertionReplay.Binary64

open Text

/-- `10^k` times `n / d`, as a quotient. -/
def scaleTen (n d : Nat) (k : Int) : Nat × Nat :=
  if k < 0 then (n, d * Nat.pow 10 (-k).toNat) else (n * Nat.pow 10 k.toNat, d)

/-- The least `p` with `n / d < 10^p`, for a positive `n`. -/
def decimalPlace (n d : Nat) : Int :=
  let guess : Int := (digitChars 10 n).length - (digitChars 10 d).length
  let (a, b) := scaleTen n d (-guess)
  if a < b then guess else guess + 1

/-- A magnitude as a quotient. -/
def ratio (m : Nat) (e : Int) : Nat × Nat :=
  scaledRatio m 1 (-e)

/-- The reals that round to a magnitude, each bound in quarters of the unit `2^e`, and whether the
bounds belong to them. -/
def roundingInterval (m : Nat) (e : Int) : Nat × Nat × Bool :=
  let low := if m == Nat.pow 2 52 && minExponent < e then 4 * m - 1 else 4 * m - 2
  (low, 4 * m + 2, m % 2 == 0)

/-- Whether `digits * 10^-k` rounds to the magnitude `m * 2^e`. -/
def roundsTo (m : Nat) (e : Int) (digits : Nat) (k : Int) : Bool :=
  let (low, high, closed) := roundingInterval m e
  -- digits * 10^-k against quarter * 2^(e-2)
  let (a, b) := scaleTen digits 1 (-k)
  let (a, b) := scaledRatio a b (e - 2)
  if closed then low * b ≤ a && a ≤ high * b else low * b < a && a < high * b

/-- Of two whole numbers around `a / b`, those that pass, the nearer first. -/
def nearestHit? (passes : Nat → Bool) (a b : Nat) : Option Nat :=
  let down := a / b
  let up := down + 1
  match passes down, passes up with
  | true, true =>
    let r := 2 * (a % b)
    some (if r < b then down else if b < r then up else if down % 2 == 0 then down else up)
  | true, false => some down
  | false, true => some up
  | false, false => none

/-- Tries grids of ever more digits: `tries` grids are left, the next one has `count` digits. -/
def findShortest (m : Nat) (e : Int) (place : Int) : (tries count : Nat) → Nat × Int
  | 0, count =>
    let k := count - place
    let (n, d) := ratio m e
    let (a, b) := scaleTen n d k
    (divHalfEven a b, k)
  | tries + 1, count =>
    let k := count - place
    let (n, d) := ratio m e
    let (a, b) := scaleTen n d k
    match nearestHit? (fun digits => 0 < digits && roundsTo m e digits k) a b with
    | some digits => (digits, k)
    | none => findShortest m e place tries (count + 1)

def dropZeros (digits : List Char) : List Char :=
  dropRightWhile (· == '0') digits

/-- The fewest digits that read back as `m * 2^e`, with the place of the point: the value is
`0.digits * 10^place`. -/
def shortestDigits (m : Nat) (e : Int) : List Char × Int :=
  let (n, d) := ratio m e
  let (digits, k) := findShortest m e (decimalPlace n d) 17 1
  let cs := digitChars 10 digits
  (dropZeros cs, cs.length - k)

def minus (negative : Bool) : List Char :=
  if negative then ['-'] else []

/-- An exponent of at least two digits, with its sign. -/
def exponentText (e : Int) : List Char :=
  let ds := digitChars 10 e.natAbs
  (if e < 0 then '-' else '+') :: (if ds.length < 2 then '0' :: ds else ds)

/-- Digits with the point after the first `place` of them, filled up with zeros on either side. -/
def positional (digits : List Char) (place : Int) : List Char :=
  if place ≤ 0 then '0' :: '.' :: (List.replicate (-place).toNat '0' ++ digits)
  else
    let p := place.toNat
    if digits.length ≤ p then digits ++ List.replicate (p - digits.length) '0' ++ ['.', '0']
    else digits.take p ++ '.' :: digits.drop p

/-- One digit before the point, the others after it, and the exponent. -/
def scientific (digits : List Char) (exponent : Int) : List Char :=
  let body := match digits with
    | [] => ['0']
    | [c] => [c]
    | c :: cs => c :: '.' :: cs
  body ++ 'e' :: exponentText exponent

/-- The shortest text that reads back as the number. -/
def shortest : Binary64 → String
  | nan _ => "nan"
  | infinite s => if s then "-inf" else "inf"
  | finite s m e =>
    if m == 0 then if s then "-0.0" else "0.0"
    else
      let (digits, place) := shortestDigits m e
      let body :=
        if -4 < place && place ≤ 16 then positional digits place
        else scientific digits (place - 1)
      String.ofList (minus s ++ body)

/-- A whole number of units of the last of `places` places, with the point put in. -/
def withPlaces (places : Nat) (units : Nat) : List Char :=
  let ds := digitChars 10 units
  let ds := List.replicate (places + 1 - ds.length) '0' ++ ds
  if places == 0 then ds
  else ds.take (ds.length - places) ++ '.' :: ds.drop (ds.length - places)

/-- The number with a fixed number of places, a tie to the even digit. -/
def fixed (places : Nat) : Binary64 → String
  | nan _ => "nan"
  | infinite s => if s then "-inf" else "inf"
  | finite s m e =>
    let (n, d) := ratio m e
    String.ofList (minus s ++ withPlaces places (divHalfEven (n * Nat.pow 10 places) d))

/-- The number in six significant digits at most: positional from `1e-4` up to below `1e6`, and with
an exponent elsewhere. -/
def general : Binary64 → String
  | nan _ => "nan"
  | infinite s => if s then "-inf" else "inf"
  | finite s m e =>
    if m == 0 then String.ofList (minus s ++ ['0'])
    else
      let (n, d) := ratio m e
      let place := decimalPlace n d
      let (a, b) := scaleTen n d (6 - place)
      let units := divHalfEven a b
      let (units, place) := if units == Nat.pow 10 6 then (Nat.pow 10 5, place + 1) else (units, place)
      let digits := dropZeros (digitChars 10 units)
      let body :=
        if place ≤ -4 || 6 < place then scientific digits (place - 1)
        else if place ≤ 0 then '0' :: '.' :: (List.replicate (-place).toNat '0' ++ digits)
        else
          let p := place.toNat
          if digits.length ≤ p then digits ++ List.replicate (p - digits.length) '0'
          else digits.take p ++ '.' :: digits.drop p
      String.ofList (minus s ++ body)

end AssertionReplay.Binary64
