/-
The progress bar of a fetch.

The bar shows the share of blocks done, what was found, the rate since the
start, and how long the rest will take at that rate. It is drawn anew over
itself after each batch, cut to one character less than the terminal's width.
-/
import AssertionReplay.Binary64.Numeral
import AssertionReplay.Journal

namespace AssertionReplay

open Text

namespace Eta

def twoDigits (n : Nat) : String :=
  if n < 10 then "0" ++ decimal n else decimal n

/-- A duration in whole seconds: hours and minutes, minutes and seconds, or seconds. -/
def ofSeconds (n : Nat) : String :=
  let minutes := n / 60
  let hours := minutes / 60
  if hours != 0 then decimal hours ++ "h" ++ twoDigits (minutes % 60) ++ "m"
  else if minutes != 0 then decimal minutes ++ "m" ++ twoDigits (n % 60) ++ "s"
  else decimal n ++ "s"

/-- A duration; what is below zero, or no number, counts as none. -/
def ofNumber (seconds : Number) : Except Fault String :=
  if (Number.int 0).lt seconds then
    match seconds.truncate? with
    | some n => .ok (ofSeconds n.toNat)
    | none => .error .outOfRange
  else .ok (ofSeconds 0)

/-- A duration from a value that must be a number. -/
def ofValue (v : Json) : Except Fault String :=
  match v.number? with
  | some n => ofNumber n
  | none => .error .mistyped

end Eta

structure Progress where
  total : Int
  width : Int := 30
  done : Int := 0
  found : Int := 0
  failed : Int := 0
  started : Binary64

namespace Progress

/-- Counts a finished batch. -/
def advance (p : Progress) (blocks found failed : Int) : Progress :=
  { p with
    done := min p.total (p.done + blocks)
    found := p.found + found
    failed := p.failed + failed }

/-- The shortest time that counts as elapsed: `1e-9`. -/
def leastElapsed : Binary64 := .ofRatio false 1 (Nat.pow 10 9)

def finite (x : Binary64) : Except Fault Binary64 :=
  match x with
  | .infinite _ => .error .outOfRange
  | x => .ok x

/-- A whole number as binary64, if it is in range. -/
def real (n : Int) : Except Fault Binary64 := finite (.ofInt n)

/-- The share of blocks that are done; all of them if there are none. -/
def share (p : Progress) : Except Fault Binary64 :=
  if p.total == 0 then .ok (.ofInt 1)
  else finite (.ofRatio ((p.done < 0) != (p.total < 0)) p.done.natAbs p.total.natAbs)

def repeated (c : Char) (n : Int) : String :=
  String.ofList (List.replicate n.toNat c)

def padLeft (width : Nat) (s : String) : String :=
  repeated ' ' (width - s.length : Nat) ++ s

/-- The bar at a time. -/
def line (p : Progress) (now : Binary64) : Except Fault String := do
  let since := now.sub p.started
  let elapsed := if since.order? leastElapsed == some .gt then since else leastElapsed
  let rate := (← real p.done).div elapsed
  let eta ←
    if rate.orderInt? 0 == some .gt then
      Eta.ofNumber (.real ((← real (p.total - p.done)).div rate))
    else .ok "?"
  let share ← p.share
  let filled ← Field.whole (.float (share.mul (← real p.width)))
  let percent := (share.mul (.ofInt 100)).fixed 0 ++ "%"
  let failures := if p.failed == 0 then "" else " | " ++ decimal p.failed ++ " failed"
  return "blocks " ++ decimal p.done ++ "/" ++ decimal p.total ++ " [" ++ repeated '#' filled ++
    repeated '.' (p.width - filled) ++ "] " ++ padLeft 4 percent ++ " | " ++ decimal p.found ++
    " txs" ++ failures ++ " | " ++ rate.fixed 1 ++ " blocks/s | ETA " ++ eta

/-- The terminal's width where the environment does not tell. -/
def defaultColumns : Nat := 100

/-- The terminal's width: a positive number from the environment, or the default. -/
def columns (setting? : Option Text) : Nat :=
  match setting?.bind (readInt? 10) with
  | some n => if 0 < n then n.toNat else defaultColumns
  | none => defaultColumns

/-- The time to draw the bar at: the one given, or the clock's if none or zero is given. -/
def timeOf (now? : Option Number) : Act Binary64 :=
  match now? with
  | none => Act.now
  | some now =>
    if now.eq (.int 0) then Act.now
    else
      match now.toBinary64? with
      | some x => return x
      | none => throw .outOfRange

/-- The bar, cut to the terminal. -/
def render (p : Progress) (now? : Option Number) : Act Text := do
  let text ← p.line (← timeOf now?)
  let width := columns (← Act.outside).columns?
  return Text.take (width - 1) text

/-- Draws the bar over itself. -/
def redraw (p : Progress) : Act Unit := do
  Act.draw ("\r" ++ (← p.render none))

/-- Leaves the line of the bar. -/
def close : Act Unit := Act.draw "\n"

/-- A bar that starts now. -/
def start (total : Int) (width : Int) : Act Progress := do
  return { total, width, started := ← Act.now }

end Progress
end AssertionReplay
