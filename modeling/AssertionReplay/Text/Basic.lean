/-
Texts.

A text is a list of letters. Nearly every letter is a character; but an escape
in the data format can spell one half of a surrogate pair where the other half
is missing, and such a half is kept as a letter of its own, so that texts that
were written differently stay different. `Text.ofString` and `Text.chars?` say
which texts are strings: those without a lone half.
-/

namespace AssertionReplay

/-- One place of a text. -/
inductive Letter where
  | char (c : Char)
  /-- The surrogate with this offset from `U+D800`. -/
  | half (offset : Fin 0x800)
  deriving DecidableEq

namespace Letter

/-- The code point. -/
def code : Letter → Nat
  | char c => c.toNat
  | half offset => 0xD800 + offset.val

/-- The letter of a code unit that is not part of a pair. -/
def ofUnit (n : Nat) : Letter :=
  if 0xD800 ≤ n && n < 0xE000 then half (Fin.ofNat 0x800 (n - 0xD800)) else char (Char.ofNat n)

/-- Whether the letter is a character of a class; a lone half is in none. -/
def satisfies (p : Char → Bool) : Letter → Bool
  | char c => p c
  | half _ => false

/-- The character, or `U+FFFD` in the place of a lone half. -/
def toChar : Letter → Char
  | char c => c
  | half _ => Char.ofNat 0xFFFD

end Letter

structure Text where
  letters : List Letter
  deriving DecidableEq

namespace Text

def ofChars (cs : List Char) : Text := ⟨cs.map .char⟩

def ofString (s : String) : Text := ofChars s.toList

instance : Coe String Text := ⟨ofString⟩

instance : Inhabited Text := ⟨⟨[]⟩⟩

protected def append (s t : Text) : Text := ⟨s.letters ++ t.letters⟩

instance : Append Text := ⟨Text.append⟩

protected def isEmpty (t : Text) : Bool := t.letters.isEmpty

protected def length (t : Text) : Nat := t.letters.length

/-- The first `n` letters. -/
protected def take (n : Nat) (t : Text) : Text := ⟨t.letters.take n⟩

/-- The texts one after another. -/
protected def join (ts : List Text) : Text := ⟨ts.flatMap letters⟩

/-- The texts with a separator between them. -/
protected def intercalate (separator : Text) (ts : List Text) : Text :=
  Text.join (ts.intersperse separator)

/-- Whether a text is the head of another. -/
protected def startsWith (t head : Text) : Bool := head.letters.isPrefixOf t.letters

/-- The characters, if no half stands alone. -/
def charsOf? : List Letter → Option (List Char)
  | [] => some []
  | .char c :: rest => (charsOf? rest).map (c :: ·)
  | .half _ :: _ => none

def chars? (t : Text) : Option (List Char) := charsOf? t.letters

/-- The text as it is shown where only characters can be: every lone half is `U+FFFD`. -/
protected def toString (t : Text) : String := String.ofList (t.letters.map Letter.toChar)

/-- Whether a list of letters comes first, or is the same, in the order of code points. -/
def atOrBefore : List Letter → List Letter → Bool
  | [], _ => true
  | _ :: _, [] => false
  | a :: as, b :: bs => a.code < b.code || (a.code == b.code && atOrBefore as bs)

/-- The texts in the order of their code points. -/
protected def sorted (ts : List Text) : List Text :=
  ts.mergeSort fun s t => atOrBefore s.letters t.letters

theorem charsOf?_eq_some_iff {ls : List Letter} {cs : List Char} :
    charsOf? ls = some cs ↔ ls = cs.map .char := by
  induction ls generalizing cs with
  | nil => cases cs <;> simp [charsOf?]
  | cons l ls ih =>
    cases l with
    | half => cases cs <;> simp [charsOf?]
    | char c =>
      cases cs with
      | nil => simp [charsOf?]
      | cons d ds =>
        simp only [charsOf?, Option.map_eq_some_iff, ih, List.map_cons, List.cons.injEq,
          Letter.char.injEq]
        constructor
        · rintro ⟨es, rfl, rfl, rfl⟩; exact ⟨rfl, rfl⟩
        · rintro ⟨rfl, rfl⟩; exact ⟨ds, rfl, rfl, rfl⟩

/-- A text has characters exactly if it is the text of them. -/
theorem chars?_eq_some_iff {t : Text} {cs : List Char} : t.chars? = some cs ↔ t = ofChars cs := by
  obtain ⟨letters⟩ := t
  simp [chars?, ofChars, charsOf?_eq_some_iff]

end Text
end AssertionReplay
