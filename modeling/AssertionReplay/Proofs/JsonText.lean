/-
Written values are read back: texts and whole numbers, and arrays and objects
of them.

`Json.Spells` says of characters that they are read as a value wherever they
stand, and that nothing of what follows them is taken along. It holds of the
written form of a text character by character, each of which is one step of
the reader whatever it is escaped as (`stringBody?_stringChar`); arrays and
objects have it if their parts do.
-/
import AssertionReplay.Json.Parser
import AssertionReplay.Json.Printer
import AssertionReplay.Proofs.Digits
import Mathlib.Data.List.Forall2

namespace AssertionReplay.Json

open Text

/-! ## Characters -/

theorem hexValue?_hexDigit : ∀ d < 16, hexValue? (hexDigit d) = some d := by decide

theorem hex4?_hexPadded {n : Nat} (hn : n < 0x10000) (rest : List Letter) :
    hex4? ((hexPadded 4 n).map .char ++ rest) = some (n, rest) := by
  have h : ∀ m, hexValue? (hexDigit (m % 16)) = some (m % 16) := fun m =>
    hexValue?_hexDigit _ (Nat.mod_lt _ (by decide))
  simp only [hexPadded, List.nil_append, List.cons_append, List.map_cons, List.map_nil, hex4?, h,
    Option.bind_eq_bind, Option.bind_some, Option.some.injEq, Prod.mk.injEq, and_true]
  omega

/-- An escaped code unit is one letter, alone or with the unit after it. -/
theorem stringBody?_unicodeEscape {n : Nat} (hn : n < 0x10000) (fuel : Nat) (done rest : List Letter) :
    stringBody? (fuel + 1) done ((unicodeEscape n).map .char ++ rest) =
      stringBody? fuel ((unitLetter n rest).1 :: done) (unitLetter n rest).2 := by
  simp [unicodeEscape, stringBody?, hex4?_hexPadded hn]

theorem unitLetter_char {c : Char} (hc : c.toNat < 0x10000) (rest : List Letter) :
    unitLetter c.toNat rest = (.char c, rest) := by
  have hvalid : c.toNat < 0xD800 ∨ 0xDFFF < c.toNat := c.valid.imp id And.left
  have hhigh : isHighSurrogate c.toNat = false := by
    simp [isHighSurrogate]
    omega
  have hunit : Letter.ofUnit c.toNat = .char c := by
    rw [Letter.ofUnit, if_neg (by simp; omega), Char.ofNat_toNat]
  simp [unitLetter, hhigh, hunit]

theorem toNat_lt (c : Char) : c.toNat < 0x110000 := by
  rcases c.valid with h | h
  · exact Nat.lt_trans h (by decide)
  · exact h.2

theorem unitLetter_pair {c : Char} (hc : 0x10000 ≤ c.toNat) (rest : List Letter) :
    unitLetter (0xD800 + (c.toNat - 0x10000) / 0x400)
      ((unicodeEscape (0xDC00 + (c.toNat - 0x10000) % 0x400)).map .char ++ rest) = (.char c, rest) := by
  have hlt := toNat_lt c
  have hhigh : isHighSurrogate (0xD800 + (c.toNat - 0x10000) / 0x400) = true := by
    simp [isHighSurrogate]
    omega
  have hlow : isLowSurrogate (0xDC00 + (c.toNat - 0x10000) % 0x400) = true := by
    simp [isLowSurrogate]
    omega
  have hcode : 0x10000 + (0xD800 + (c.toNat - 0x10000) / 0x400 - 0xD800) * 0x400 +
      (0xDC00 + (c.toNat - 0x10000) % 0x400 - 0xDC00) = c.toNat := by omega
  simp only [unitLetter, hhigh, unicodeEscape, List.map_cons, List.cons_append,
    hex4?_hexPadded (show 0xDC00 + (c.toNat - 0x10000) % 0x400 < 0x10000 by omega), hlow, hcode,
    Char.ofNat_toNat]
  rfl

theorem stringBody?_self {c : Char} (hquote : c ≠ '"') (hslash : c ≠ '\\') (hcontrol : 32 ≤ c.toNat)
    (fuel : Nat) (done rest : List Letter) :
    stringBody? (fuel + 1) done (.char c :: rest) = stringBody? fuel (.char c :: done) rest := by
  have hcode : ¬ (Letter.char c).code < 32 := Nat.not_lt.mpr hcontrol
  rw [stringBody?]
  · simp [hcode, hslash]
  · simpa using hquote
  · simp [hslash]
  · simp [hslash]

theorem stringChar_short {n : Nat} (hn : n ∈ [34, 92, 10, 13, 9, 12, 8]) :
    ∃ e ∈ ['"', '\\', 'n', 'r', 't', 'f', 'b'],
      stringChar ascii (Char.ofNat n) = ['\\', e] ∧ escape? e = some (Char.ofNat n) := by
  simp only [List.mem_cons, List.not_mem_nil, or_false] at hn
  rcases hn with rfl | rfl | rfl | rfl | rfl | rfl | rfl <;> exact ⟨_, by simp, rfl, rfl⟩

/-- What a character is written as: a short escape that is read as it, its code units, or itself. -/
theorem stringChar_cases (c : Char) :
    (∃ e ∈ ['"', '\\', 'n', 'r', 't', 'f', 'b'], stringChar ascii c = ['\\', e] ∧ escape? e = some c) ∨
      stringChar ascii c = escapeUnits c.toNat ∨
        c ≠ '"' ∧ c ≠ '\\' ∧ 32 ≤ c.toNat ∧ stringChar ascii c = [c] := by
  by_cases hshort : c.toNat ∈ [34, 92, 10, 13, 9, 12, 8]
  · have hescape := stringChar_short hshort
    rw [Char.ofNat_toNat] at hescape
    exact .inl hescape
  simp only [List.mem_cons, List.not_mem_nil, or_false, not_or] at hshort
  obtain ⟨hquote, hslash, hn, hr, ht, hf, hb⟩ := hshort
  have hquote : c ≠ '"' := fun h => hquote (by rw [h]; rfl)
  have hslash : c ≠ '\\' := fun h => hslash (by rw [h]; rfl)
  by_cases hcontrol : c.toNat < 32
  · refine .inr (.inl ?_)
    rw [escapeUnits, if_pos (by omega)]
    simp [stringChar, hquote, hslash, hn, hr, ht, hf, hb, hcontrol]
  by_cases hhigh : 126 < c.toNat
  · exact .inr (.inl (by simp [stringChar, hquote, hslash, hn, hr, ht, hf, hb, hcontrol, hhigh, ascii]))
  · refine .inr (.inr ⟨hquote, hslash, Nat.not_lt.mp hcontrol, ?_⟩)
    simp [stringChar, hquote, hslash, hn, hr, ht, hf, hb, hcontrol, hhigh]

theorem stringBody?_short {e c : Char} (he : e ∈ ['"', '\\', 'n', 'r', 't', 'f', 'b'])
    (hc : escape? e = some c) (fuel : Nat) (done rest : List Letter) :
    stringBody? (fuel + 1) done (.char '\\' :: .char e :: rest) = stringBody? fuel (.char c :: done) rest := by
  simp only [List.mem_cons, List.not_mem_nil, or_false] at he
  rcases he with rfl | rfl | rfl | rfl | rfl | rfl | rfl <;> cases hc <;> rfl

theorem stringBody?_escapeUnits (c : Char) (fuel : Nat) (done rest : List Letter) :
    stringBody? (fuel + 1) done ((escapeUnits c.toNat).map .char ++ rest) =
      stringBody? fuel (.char c :: done) rest := by
  unfold escapeUnits
  dsimp only
  split
  · rename_i h
    rw [stringBody?_unicodeEscape h, unitLetter_char h]
  · rename_i h
    have hlt := toNat_lt c
    rw [List.map_append, List.append_assoc, stringBody?_unicodeEscape (by omega), unitLetter_pair (by omega)]

/-- **One character.** Whatever a character is written as, it is read in one step. -/
theorem stringBody?_stringChar (c : Char) (fuel : Nat) (done rest : List Letter) :
    stringBody? (fuel + 1) done ((stringChar ascii c).map .char ++ rest) =
      stringBody? fuel (.char c :: done) rest := by
  rcases stringChar_cases c with ⟨e, he, hc, hescape⟩ | hc | ⟨hquote, hslash, hcontrol, hc⟩ <;> rw [hc]
  · exact stringBody?_short he hescape fuel done rest
  · exact stringBody?_escapeUnits c fuel done rest
  · exact stringBody?_self hquote hslash hcontrol fuel done rest

/-! ## Texts -/

theorem stringChar_ne_nil (c : Char) : stringChar ascii c ≠ [] := by
  rcases stringChar_cases c with ⟨e, -, hc, -⟩ | hc | ⟨-, -, -, hc⟩ <;> rw [hc]
  · simp
  · unfold escapeUnits
    split <;> simp [unicodeEscape]
  · simp

/-- The characters between the quotes of a written text. -/
def escaped (cs : List Char) : List Char := cs.flatMap (stringChar ascii)

theorem stringText_ofChars (cs : List Char) :
    (stringText ascii (ofChars cs)).toList = '"' :: (escaped cs ++ ['"']) := by
  rw [stringText, String.toList_ofList, letters_ofChars, List.flatMap_map]
  rfl

theorem stringBody?_escaped (cs : List Char) (done rest : List Letter) {fuel : Nat}
    (hfuel : cs.length < fuel) :
    stringBody? fuel done ((escaped cs).map .char ++ .char '"' :: rest) =
      some (done.reverse ++ cs.map .char, rest) := by
  induction cs generalizing done fuel with
  | nil =>
    obtain ⟨fuel, rfl⟩ : ∃ k, fuel = k + 1 := ⟨fuel - 1, by simp at hfuel; omega⟩
    simp [escaped, stringBody?]
  | cons c cs ih =>
    obtain ⟨fuel, rfl⟩ : ∃ k, fuel = k + 1 := ⟨fuel - 1, by simp at hfuel; omega⟩
    have hescaped : escaped (c :: cs) = stringChar ascii c ++ escaped cs := List.flatMap_cons
    rw [hescaped, List.map_append, List.append_assoc, stringBody?_stringChar,
      ih _ (by simpa using hfuel)]
    simp

theorem length_le_escaped (cs : List Char) : cs.length ≤ (escaped cs).length := by
  induction cs with
  | nil => simp
  | cons c cs ih =>
    have := List.length_pos_of_ne_nil (stringChar_ne_nil c)
    simp only [escaped, List.flatMap_cons, List.length_append, List.length_cons] at ih ⊢
    omega

theorem string?_escaped (cs : List Char) (rest : List Letter) :
    string? ((escaped cs).map .char ++ .char '"' :: rest) = some (ofChars cs, rest) := by
  have hlength := length_le_escaped cs
  rw [string?, stringBody?_escaped _ _ _ (by simp; omega)]
  rfl

/-! ## Values -/

/-- What can follow a value: nothing, a comma, or the end of an array or an object. -/
def Follows (rest : List Letter) : Prop := ∀ l ∈ rest.head?, l ∈ [.char ',', .char ']', Letter.char '\x7d']

theorem follows_nil : Follows [] := by simp [Follows]

theorem follows_cons {l : Letter} (h : l ∈ [.char ',', .char ']', Letter.char '\x7d']) (rest : List Letter) :
    Follows (l :: rest) := by
  simpa [Follows] using h

theorem follows_elements (css : List (List Char)) {close : Letter} (hclose : close ∈ [.char ']', Letter.char '\x7d'])
    (rest : List Letter) : Follows ((css.flatMap (',' :: ·)).map .char ++ close :: rest) := by
  cases css with
  | nil => exact follows_cons (List.mem_cons_of_mem _ hclose) rest
  | cons cs css => exact follows_cons List.mem_cons_self _

/-- Read at the head of letters that can follow a value, the characters are the value, and the rest is
left. A list of values may start with them: the first one is no white space and does not close the list. -/
structure Spells (cs : List Char) (v : Json) : Prop where
  head : ∃ c more, cs = c :: more ∧ isSpace c = false ∧ c ≠ ']'
  read : ∀ {fuel} rest, Follows rest → cs.length < fuel → value? fuel (cs.map .char ++ rest) = some (v, rest)

theorem skipSpace_cons {c : Char} (h : isSpace c = false) (rest : List Letter) :
    skipSpace (.char c :: rest) = .char c :: rest := by
  simp [skipSpace, Letter.satisfies, h]

theorem spells_str (cs : List Char) : Spells (stringText ascii (ofChars cs)).toList (.str (ofChars cs)) := by
  rw [stringText_ofChars]
  refine ⟨⟨_, _, rfl, rfl, by decide⟩, fun {fuel} rest _ hfuel => ?_⟩
  obtain ⟨fuel, rfl⟩ : ∃ k, fuel = k + 1 := ⟨fuel - 1, by simp at hfuel; omega⟩
  have hbody := string?_escaped cs rest
  simp only [List.map_cons, List.map_append, List.map_nil, List.cons_append, List.append_assoc,
    List.nil_append, value?, hbody]
  rfl

theorem spells_null : Spells (write ascii .null).toList .null := by
  refine ⟨⟨'n', ['u', 'l', 'l'], rfl, rfl, by decide⟩, fun {fuel} rest _ hfuel => ?_⟩
  obtain ⟨fuel, rfl⟩ : ∃ k, fuel = k + 1 := ⟨fuel - 1, by omega⟩
  rfl

/-! ## Whole numbers -/

theorem isDigitChar_digitChar : ∀ d < 10, isDigitChar (Nat.digitChar d) = true ∧ isSpace (Nat.digitChar d) = false ∧
    (Letter.char (Nat.digitChar d)).code - 48 = d ∧
    Nat.digitChar d ∉ ['"', '[', ']', '\x7b', 'n', 't', 'f', 'N', 'I', '-'] := by decide

/-- No letter of what can follow a value goes on with a number. -/
theorem Follows.number {rest : List Letter} (h : Follows rest) :
    leadingDigits rest = ([], rest) ∧ fractionPart rest = ([], rest) ∧ exponentPart rest = (none, rest) := by
  cases rest with
  | nil => exact ⟨rfl, rfl, rfl⟩
  | cons l rest =>
    have hl := h l rfl
    simp only [List.mem_cons, List.not_mem_nil, or_false] at hl
    rcases hl with rfl | rfl | rfl <;> exact ⟨rfl, rfl, rfl⟩

theorem leadingDigits_digits {ds : List Nat} (hds : ∀ d ∈ ds, d < 10) {rest : List Letter} (hrest : Follows rest) :
    leadingDigits ((ds.map Nat.digitChar).map .char ++ rest) = (ds, rest) := by
  have hnone := Prod.ext_iff.mp hrest.number.1
  simp only [leadingDigits, List.map_eq_nil_iff] at hnone
  have hdigit : ∀ l ∈ (ds.map Nat.digitChar).map Letter.char, l.satisfies isDigitChar = true :=
    List.forall_mem_map.mpr (List.forall_mem_map.mpr fun d hd => (isDigitChar_digitChar d (hds d hd)).1)
  have hvalues : ((ds.map Nat.digitChar).map Letter.char).map (fun l => l.code - 48) = ds := by
    rw [List.map_map, List.map_map]
    exact (List.map_congr_left fun d hd => (isDigitChar_digitChar d (hds d hd)).2.2.1).trans (List.map_id ds)
  rw [leadingDigits, List.takeWhile_append_of_pos hdigit, List.dropWhile_append_of_pos hdigit, hnone.1, hnone.2,
    List.append_nil, hvalues]

theorem wholePart?_digitChars (n : Nat) {rest : List Letter} (hrest : Follows rest) :
    ∃ ds, wholePart? ((digitChars 10 n).map .char ++ rest) = some (ds, rest) ∧
      ds.length = (digitChars 10 n).length ∧ ofDigits 10 ds = n := by
  obtain ⟨ds, hne, hds, hcs, hv⟩ := exists_digitChars n
  refine ⟨ds, ?_, by rw [hcs, List.length_map], hv⟩
  have hleading := leadingDigits_digits hds hrest
  rw [← hcs] at hleading
  unfold wholePart?
  split
  -- A zero in front ends the whole part, but it is in front of nothing.
  · rename_i rest' hzero
    obtain ⟨c, cs, hcons⟩ := List.exists_cons_of_ne_nil (digitChars_ne_nil n)
    rw [hcons, List.map_cons, List.cons_append, List.cons.injEq, Letter.char.injEq] at hzero
    obtain rfl : n = 0 := eq_zero_of_digitChars (hcons.trans (by rw [hzero.1]))
    obtain ⟨rfl, rfl⟩ : c = '0' ∧ cs = [] := List.cons.inj (hcons.symm.trans (by decide))
    obtain rfl : ds = [0] := by
      have hleading' : leadingDigits ([Letter.char '0'] ++ rest) = ([0], rest) :=
        leadingDigits_digits (by decide : ∀ d ∈ [0], d < 10) hrest
      exact (Prod.ext_iff.mp (hleading.symm.trans hleading')).1
    rw [← hzero.2]
    rfl
  · rw [hleading]
    cases ds with
    | nil => exact absurd rfl hne
    | cons d ds => rfl

theorem unsigned?_digitChars {n : Nat} (h : HasNumeral n) {rest : List Letter} (hrest : Follows rest) :
    unsigned? false ((digitChars 10 n).map .char ++ rest) = some (.int n, rest) := by
  obtain ⟨ds, hwhole, hlength, hv⟩ := wholePart?_digitChars n hrest
  obtain ⟨-, hfraction, hexponent⟩ := hrest.number
  have hfew : ¬ decimalDigitLimit < ds.length := by
    rw [hlength, Nat.not_lt, digitChars_length_le_iff]
    simpa [HasNumeral] using h
  simp [unsigned?, hwhole, hfraction, hexponent, hfew, hv]

/-- **Whole numbers are read back**, if they have a numeral. -/
theorem spells_int {n : Nat} (h : HasNumeral n) : Spells (write ascii (.int n)).toList (.int n) := by
  have hchars : (write ascii (.int n)).toList = digitChars 10 n := String.toList_ofList
  obtain ⟨c, cs, hcons⟩ := List.exists_cons_of_ne_nil (digitChars_ne_nil n)
  obtain ⟨d, hd, rfl⟩ := mem_digitChars (n := n) (c := c) (by simp [hcons])
  obtain ⟨-, hspace, -, hother⟩ := isDigitChar_digitChar d hd
  simp only [List.mem_cons, List.not_mem_nil, or_false, not_or] at hother
  rw [hchars]
  refine ⟨⟨_, _, hcons, hspace, hother.2.2.1⟩, fun {fuel} rest hrest hfuel => ?_⟩
  obtain ⟨fuel, rfl⟩ : ∃ k, fuel = k + 1 := ⟨fuel - 1, by omega⟩
  have hread := unsigned?_digitChars h hrest
  rw [hcons, List.map_cons, List.cons_append] at hread ⊢
  simp_all [value?, scalar?]

theorem Spells.skipSpace {cs : List Char} {v : Json} (h : Spells cs v) (rest : List Letter) :
    skipSpace (cs.map .char ++ rest) = cs.map .char ++ rest := by
  obtain ⟨c, more, rfl, hspace, -⟩ := h.head
  exact skipSpace_cons hspace _

/-! ## Arrays -/

/-- One value. What follows it tells whether there is another. -/
theorem items?_chars {cs : List Char} {v : Json} (h : Spells cs v) (done : List Json) {fuel : Nat}
    (hfuel : cs.length < fuel) {rest : List Letter} (hrest : Follows rest) :
    items? (fuel + 1) (cs.map .char ++ rest) done =
      match skipSpace rest with
      | .char ',' :: rest => items? fuel (skipSpace rest) (v :: done)
      | .char ']' :: rest => some ((v :: done).reverse, rest)
      | _ => none := by
  rewrite [items?, h.read rest hrest hfuel]
  rfl

/-- The values up to the end of an array. -/
theorem items?_spells {cs : List Char} {v : Json} {css : List (List Char)} {vs : List Json}
    (hcs : Spells cs v) (h : List.Forall₂ Spells css vs) (done : List Json) (rest : List Letter) (fuel : Nat)
    (hfuel : (cs ++ css.flatMap (',' :: ·)).length + 1 < fuel) :
    items? fuel ((cs ++ css.flatMap (',' :: ·)).map .char ++ .char ']' :: rest) done =
      some (done.reverse ++ v :: vs, rest) := by
  obtain ⟨fuel, rfl⟩ : ∃ k, fuel = k + 1 := ⟨fuel - 1, by omega⟩
  rw [List.length_append] at hfuel
  rw [List.map_append, List.append_assoc,
    items?_chars hcs done (by omega) (follows_elements css (by simp) rest)]
  induction h generalizing cs v done fuel with
  | nil => simp [skipSpace_cons (show isSpace ']' = false from rfl)]
  | @cons cs' v' css vs hcs' hcss ih =>
    obtain ⟨fuel, rfl⟩ : ∃ k, fuel = k + 1 := ⟨fuel - 1, by omega⟩
    simp only [List.flatMap_cons, List.length_append, List.length_cons] at hfuel
    simp only [List.flatMap_cons, List.cons_append, List.map_cons, List.map_append, List.append_assoc,
      skipSpace_cons (show isSpace ',' = false from rfl), hcs'.skipSpace]
    rw [items?_chars hcs' _ (by omega) (follows_elements css (by simp) rest), ih hcs' (v :: done) fuel (by omega)]
    simp

theorem toList_arr (vs : List Json) : (write ascii (.arr vs)).toList =
    '[' :: ([','].intercalate (vs.map fun v => (write ascii v).toList) ++ [']']) := by
  have hitems : ∀ ws : List Json, writeItems ascii ws = ws.map (write ascii) := by
    intro ws
    induction ws with
    | nil => rfl
    | cons w ws ih => rw [writeItems, ih, List.map_cons]
  rw [write, hitems, String.toList_append, String.toList_append, String.toList_intercalate, List.map_map]
  rfl

/-- **Arrays are read back.** -/
theorem spells_arr {vs : List Json} (h : ∀ v ∈ vs, Spells (write ascii v).toList v) :
    Spells (write ascii (.arr vs)).toList (.arr vs) := by
  rw [toList_arr]
  refine ⟨⟨_, _, rfl, rfl, by decide⟩, fun {fuel} rest _ hfuel => ?_⟩
  obtain ⟨fuel, rfl⟩ : ∃ k, fuel = k + 1 := ⟨fuel - 1, by omega⟩
  cases vs with
  | nil => simp [value?, skipSpace_cons (show isSpace ']' = false from rfl)]
  | cons v vs =>
    have hv := h v (by simp)
    have hvs : List.Forall₂ Spells (vs.map fun v => (write ascii v).toList) vs := by
      rw [List.forall₂_map_left_iff, List.forall₂_same]
      exact fun v' hv' => h v' (by simp [hv'])
    rw [List.map_cons, intercalate_cons] at hfuel
    simp only [List.length_cons, List.length_append, List.length_nil] at hfuel
    have hread := items?_spells hv hvs [] rest fuel (by rw [List.length_append]; omega)
    obtain ⟨c, more, heq, hspace, hclose⟩ := hv.head
    simp only [heq, intercalate_cons, List.map_cons, List.map_append, List.map_nil, List.cons_append,
      List.append_assoc, List.nil_append, value?, skipSpace_cons hspace] at hread ⊢
    split
    · rename_i hhead
      exact absurd (Letter.char.inj (List.cons.inj hhead).1) hclose
    · rw [hread]
      rfl

/-! ## Objects -/

/-- A member with a name that is made of characters. -/
structure Member where
  name : List Char
  value : Json

namespace Member

def entry (m : Member) : Text × Json := (ofChars m.name, m.value)

/-- The member as it is written. -/
def chars (m : Member) : List Char :=
  (stringText ascii (ofChars m.name)).toList ++ ':' :: (write ascii m.value).toList

theorem chars_eq (m : Member) :
    m.chars = '"' :: (escaped m.name ++ '"' :: ':' :: (write ascii m.value).toList) := by
  simp [chars, stringText_ofChars]

theorem skipSpace_chars (m : Member) (rest : List Letter) :
    skipSpace (m.chars.map .char ++ rest) = m.chars.map .char ++ rest := by
  rw [chars_eq]
  exact skipSpace_cons rfl _

end Member

/-- One member. What follows it tells whether there is another. -/
theorem members?_chars {m : Member} (h : Spells (write ascii m.value).toList m.value)
    {done : List (Text × Json)} (hnew : m.entry.1 ∉ done.map (·.1)) {fuel : Nat}
    (hfuel : m.chars.length ≤ fuel) {rest : List Letter} (hrest : Follows rest) :
    members? (fuel + 1) (m.chars.map .char ++ rest) done =
      match skipSpace rest with
      | .char ',' :: rest => members? fuel (skipSpace rest) (done ++ [m.entry])
      | .char '\x7d' :: rest => some (done ++ [m.entry], rest)
      | _ => none := by
  have hinsert : OrderedMap.insert done (ofChars m.name) m.value = done ++ [m.entry] :=
    OrderedMap.insert_new hnew m.value
  rw [Member.chars_eq] at hfuel ⊢
  simp only [List.length_cons, List.length_append] at hfuel
  have hread := h.read rest hrest (show _ < fuel by omega)
  simp only [List.map_cons, List.map_append, List.cons_append, List.append_assoc, members?,
    string?_escaped, skipSpace_cons (show isSpace ':' = false from rfl), h.skipSpace, hread]
  rewrite [hinsert]
  rfl

/-- The members up to the end of an object. -/
theorem members?_spells {m : Member} {ms : List Member}
    (h : ∀ m' ∈ m :: ms, Spells (write ascii m'.value).toList m'.value) (done : List (Text × Json))
    (hnew : (done.map (·.1) ++ (m :: ms).map (·.entry.1)).Nodup) (rest : List Letter) (fuel : Nat)
    (hfuel : (m.chars ++ (ms.map Member.chars).flatMap (',' :: ·)).length < fuel) :
    members? fuel ((m.chars ++ (ms.map Member.chars).flatMap (',' :: ·)).map .char ++ .char '\x7d' :: rest)
      done = some (done ++ (m :: ms).map Member.entry, rest) := by
  have hfirst : ∀ {done : List (Text × Json)} {m : Member} {ms : List Member},
      (done.map (·.1) ++ (m :: ms).map (·.entry.1)).Nodup → m.entry.1 ∉ done.map (·.1) :=
    fun h hmem => (List.nodup_append.mp h).2.2 _ hmem _ (by simp) rfl
  obtain ⟨fuel, rfl⟩ : ∃ k, fuel = k + 1 := ⟨fuel - 1, by omega⟩
  rw [List.length_append] at hfuel
  rw [List.map_append, List.append_assoc,
    members?_chars (h m (by simp)) (hfirst hnew) (by omega) (follows_elements _ (by simp) rest)]
  induction ms generalizing m done fuel with
  | nil => simp [skipSpace_cons (show isSpace '\x7d' = false from rfl)]
  | cons m' ms ih =>
    have hnew' : ((done ++ [m.entry]).map (·.1) ++ (m' :: ms).map (·.entry.1)).Nodup := by simpa using hnew
    simp only [List.map_cons, List.flatMap_cons, List.length_append, List.length_cons] at hfuel
    obtain ⟨fuel, rfl⟩ : ∃ k, fuel = k + 1 := ⟨fuel - 1, by omega⟩
    simp only [List.map_cons, List.flatMap_cons, List.cons_append, List.map_append, List.append_assoc,
      skipSpace_cons (show isSpace ',' = false from rfl), m'.skipSpace_chars]
    rw [members?_chars (h m' (by simp)) (hfirst hnew') (by omega) (follows_elements _ (by simp) rest),
      ih (fun m'' hm'' => h m'' (List.mem_cons_of_mem _ hm'')) (done ++ [m.entry]) hnew' fuel (by omega)]
    simp

theorem toList_obj (ms : List Member) : (write ascii (.obj (ms.map Member.entry))).toList =
    '\x7b' :: ([','].intercalate (ms.map Member.chars) ++ ['\x7d']) := by
  have hmembers : ∀ ns : List Member, (writeMembers ascii (ns.map Member.entry)).map
      (fun m => (stringText ascii m.1 ++ ":" ++ m.2).toList) = ns.map Member.chars := by
    intro ns
    induction ns with
    | nil => rfl
    | cons n ns ih =>
      rw [List.map_cons, Member.entry, writeMembers, List.map_cons, ih, List.map_cons, Member.chars]
      simp
  rw [write, arrange, String.toList_append, String.toList_append, String.toList_intercalate, List.map_map,
    ← hmembers]
  rfl

/-- **Objects are read back.** -/
theorem spells_obj {ms : List Member} (h : ∀ m ∈ ms, Spells (write ascii m.value).toList m.value)
    (hnames : (ms.map (·.entry.1)).Nodup) :
    Spells (write ascii (.obj (ms.map Member.entry))).toList (.obj (ms.map Member.entry)) := by
  rw [toList_obj]
  refine ⟨⟨_, _, rfl, rfl, by decide⟩, fun {fuel} rest _ hfuel => ?_⟩
  obtain ⟨fuel, rfl⟩ : ∃ k, fuel = k + 1 := ⟨fuel - 1, by omega⟩
  cases ms with
  | nil => simp [value?, skipSpace_cons (show isSpace '\x7d' = false from rfl)]
  | cons m ms =>
    rw [List.map_cons, intercalate_cons] at hfuel
    simp only [List.length_cons, List.length_append, List.length_nil] at hfuel
    have hread := members?_spells h [] (by simpa using hnames) rest fuel (by rw [List.length_append]; omega)
    simp only [intercalate_cons, List.map_cons, List.map_append, List.map_nil, List.cons_append,
      List.append_assoc, List.nil_append, value?, m.skipSpace_chars] at hread ⊢
    rw [Member.chars_eq] at hread ⊢
    split
    · rename_i hhead
      cases hhead
    · rw [hread]
      rfl

/-- **Written values are read back.** -/
theorem parse?_write {v : Json} (h : Spells (write ascii v).toList v) : parse? (write ascii v) = some v := by
  obtain ⟨c, more, heq, hspace, -⟩ := h.head
  have hskip : skipSpace ((write ascii v).toList.map .char) = (write ascii v).toList.map .char := by
    rw [heq]
    exact skipSpace_cons hspace _
  have hread := h.read [] follows_nil (show _ < 2 * (write ascii v : Text).length + 2 by
    simp only [Text.length, ofString, letters_ofChars, List.length_map]
    omega)
  rw [List.append_nil] at hread
  rw [parse?, ofString, letters_ofChars, hskip, ← ofString, hread]
  rfl

end AssertionReplay.Json
