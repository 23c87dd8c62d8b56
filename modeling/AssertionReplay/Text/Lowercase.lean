/-
The lower case form of a text, for every script.

A character has one lower case form, with two exceptions: the capital I with
dot becomes `i` and a combining dot, and the capital sigma becomes a final
sigma at the end of a word. The end of a word is found by skipping the
characters without a say in case (`caseIgnorableRanges`) on both sides.
-/
import AssertionReplay.Text.CaseTable
import AssertionReplay.Text.Digit

namespace AssertionReplay.Text

/-- Whether the character is cased and not skipped when case is looked for. -/
def isCased (c : Char) : Bool :=
  let n := c.toNat
  if n < 128 then (65 ≤ n && n ≤ 90) || (97 ≤ n && n ≤ 122) else inRanges casedRanges n

def isCaseIgnorable (c : Char) : Bool :=
  let n := c.toNat
  if n < 128 then n == 39 || n == 46 || n == 58 || n == 94 || n == 96
  else inRanges caseIgnorableRanges n

/-- The distance to the lower case form of a character beyond ASCII. -/
def lowerShift (n : Nat) : Int :=
  match lowerRuns.find? fun r => r.1 ≤ n && n ≤ r.2.1 && (n - r.1) % r.2.2.1 == 0 with
  | some r => r.2.2.2
  | none => 0

/-- The lower case form of a character whose surroundings do not matter. -/
def lowerChar (c : Char) : List Char :=
  let n := c.toNat
  if n < 128 then
    if 65 ≤ n && n ≤ 90 then [Char.ofNat (n + 32)] else [c]
  else if n == 0x130 then ['i', Char.ofNat 0x307]
  else
    let shift := lowerShift n
    if shift == 0 then [c] else [Char.ofNat (n + shift).toNat]

/-- Whether the first letter that has a say in case is a cased one. -/
def meetsCased (ls : List Letter) : Bool :=
  match ls.dropWhile (Letter.satisfies isCaseIgnorable) with
  | l :: _ => l.satisfies isCased
  | [] => false

/-- Lower case of a letter between those already passed, nearest first, and those that follow. -/
def lowerLetter (before : List Letter) (l : Letter) (after : List Letter) : List Letter :=
  match l with
  | .half offset => [.half offset]
  | .char c =>
    if c.toNat == 0x3A3 then
      let isFinal := meetsCased before && !meetsCased after
      [.char (Char.ofNat (if isFinal then 0x3C2 else 0x3C3))]
    else (lowerChar c).map .char

/-- Lower case of `ls`, with `before` holding the letters already passed, nearest first. -/
def lowerAfter (before : List Letter) : List Letter → List Letter
  | [] => []
  | l :: ls => lowerLetter before l ls ++ lowerAfter (l :: before) ls

def lower (t : Text) : Text :=
  ⟨lowerAfter [] t.letters⟩

end AssertionReplay.Text
