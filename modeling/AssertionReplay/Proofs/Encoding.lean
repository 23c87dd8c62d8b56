/-
The strict layout, written.

`encodeWord` writes a number as a word and `encodeTail` bytes as the tail of a
text, so `LaysOut` says what a body that holds a text looks like, without
reading it. The reader accepts exactly such bodies, as long as the padded
length is below what can be asked for (`text?_eq_some_iff`); a word is read
exactly where its bytes stand (`word?_eq_some_iff`).
-/
import AssertionReplay.Proofs.Revert
import Mathlib.Algebra.Group.Nat.Defs
import Mathlib.Data.List.Induction

namespace AssertionReplay.Abi

/-! ## Words -/

/-- A number in so many bytes, most significant first. -/
def bigEndian : (size : Nat) → Nat → Bytes
  | 0, _ => []
  | size + 1, n => bigEndian size (n / 256) ++ [UInt8.ofNat n]

@[simp] theorem length_bigEndian (size n : Nat) : (bigEndian size n).length = size := by
  induction size generalizing n with
  | zero => rfl
  | succ size ih => simp [bigEndian, ih]

theorem ofBytes_concat (bs : Bytes) (b : UInt8) : ofBytes (bs ++ [b]) = ofBytes bs * 256 + b.toNat := by
  simp [ofBytes]

theorem ofBytes_lt (bs : Bytes) : ofBytes bs < 256 ^ bs.length := by
  induction bs using List.reverseRecOn with
  | nil => simp [ofBytes]
  | append_singleton bs b ih =>
    have hb := b.toNat_lt
    rw [ofBytes_concat, List.length_append, List.length_singleton, Nat.pow_succ]
    omega

theorem ofBytes_bigEndian {size n : Nat} (h : n < 256 ^ size) : ofBytes (bigEndian size n) = n := by
  induction size generalizing n with
  | zero =>
    rw [Nat.pow_zero] at h
    simp [bigEndian, ofBytes]
    omega
  | succ size ih =>
    rw [Nat.pow_succ] at h
    rw [bigEndian, ofBytes_concat, ih (by omega), UInt8.toNat_ofNat']
    omega

theorem bigEndian_ofBytes (bs : Bytes) : bigEndian bs.length (ofBytes bs) = bs := by
  induction bs using List.reverseRecOn with
  | nil => rfl
  | append_singleton bs b ih =>
    have hb := b.toNat_lt
    have hrest : (ofBytes bs * 256 + b.toNat) / 256 = ofBytes bs := by omega
    have hlast : UInt8.ofNat (ofBytes bs * 256 + b.toNat) = b := by
      apply UInt8.toNat_inj.mp
      rw [UInt8.toNat_ofNat']
      omega
    rw [List.length_append, List.length_singleton, bigEndian, ofBytes_concat, hrest, hlast, ih]

/-- Numbers below this one fit into a word. -/
def wordLimit : Nat := 2 ^ 256

theorem wordLimit_eq : wordLimit = 256 ^ wordSize := by decide

/-- A number as a word. -/
@[irreducible] def encodeWord (n : Nat) : Bytes := bigEndian wordSize n

@[simp] theorem length_encodeWord (n : Nat) : (encodeWord n).length = wordSize := by
  rw [encodeWord, length_bigEndian]

/-- **A word is read exactly where its bytes stand.** -/
theorem word?_eq_some_iff {body : Bytes} {offset n : Nat} : word? body offset = some n ↔
    ∃ before after, body = before ++ (encodeWord n ++ after) ∧ before.length = offset ∧ n < wordLimit := by
  rw [word?, wordLimit_eq]
  constructor
  · intro h
    split at h
    · rename_i hlength
      have hlength := eq_of_beq hlength
      have hn : ofBytes ((body.drop offset).take wordSize) = n := Option.some.inj h
      have hword : encodeWord n = (body.drop offset).take wordSize := by
        have hsame := bigEndian_ofBytes ((body.drop offset).take wordSize)
        rwa [hlength, hn, ← encodeWord] at hsame
      have hlt := ofBytes_lt ((body.drop offset).take wordSize)
      rw [hlength, hn] at hlt
      refine ⟨body.take offset, (body.drop offset).drop wordSize, ?_, ?_, hlt⟩
      · rw [hword, List.take_append_drop, List.take_append_drop]
      · rw [List.length_take, List.length_drop] at hlength
        rw [List.length_take]
        simp only [wordSize] at hlength
        omega
    · cases h
  · intro h
    obtain ⟨before, after, rfl, rfl, hn⟩ := h
    have hword : ((before ++ (encodeWord n ++ after)).drop before.length).take wordSize = encodeWord n := by
      rw [List.drop_left, List.take_left' (length_encodeWord n)]
    rw [hword, length_encodeWord, if_pos (beq_self_eq_true _), encodeWord, ofBytes_bigEndian hn]

theorem word?_encodeWord {n : Nat} (h : n < wordLimit) (before after : Bytes) :
    word? (before ++ (encodeWord n ++ after)) before.length = some n :=
  word?_eq_some_iff.mpr ⟨before, after, rfl, rfl, h⟩

theorem word?_zero_eq_some_iff {body : Bytes} {n : Nat} :
    word? body 0 = some n ↔ n < wordLimit ∧ ∃ after, body = encodeWord n ++ after := by
  rw [word?_eq_some_iff]
  constructor
  · intro h
    obtain ⟨before, after, rfl, hbefore, hn⟩ := h
    rw [List.length_eq_zero_iff.mp hbefore, List.nil_append]
    exact ⟨hn, after, rfl⟩
  · intro h
    obtain ⟨hn, after, rfl⟩ := h
    exact ⟨[], after, (List.nil_append _).symm, rfl, hn⟩

/-! ## Texts -/

/-- Bytes as the tail of a text: their number, the bytes, and zeros up to a whole word. -/
def encodeTail (bytes : Bytes) : Bytes :=
  encodeWord bytes.length ++ (bytes ++ List.replicate (padded bytes.length - bytes.length) 0)

theorem le_padded (length : Nat) : length ≤ padded length := by
  simp only [padded, wordSize]
  omega

theorem padded_lt (length : Nat) : padded length < length + wordSize := by
  simp only [padded, wordSize]
  omega

theorem lt_wordLimit_of_padded {length : Nat} (h : padded length < lengthLimit) : length < wordLimit := by
  have hlimit : lengthLimit < wordLimit := by decide
  have hle := le_padded length
  omega

theorem drop_encodeWord (before after : Bytes) (n : Nat) :
    (before ++ (encodeWord n ++ after)).drop (before.length + wordSize) = after := by
  rw [← List.drop_drop, List.drop_left, List.drop_left' (length_encodeWord n)]

/-- Bytes whose padding is there, and is zero, are the data, the padding and what comes after. -/
theorem opens_padded_iff {rest bytes : Bytes} {length : Nat} :
    padded length ≤ rest.length ∧ ((rest.take (padded length)).drop length).all (· == 0) = true ∧
        rest.take length = bytes ↔
      bytes.length = length ∧ ∃ after, rest = bytes ++ (List.replicate (padded length - length) 0 ++ after) := by
  have hle := le_padded length
  constructor
  · intro h
    obtain ⟨hthere, hzeros, rfl⟩ := h
    refine ⟨by rw [List.length_take]; omega, rest.drop (padded length), ?_⟩
    have hpadding : (rest.take (padded length)).drop length = List.replicate (padded length - length) 0 := by
      rw [List.eq_replicate_iff, List.length_drop, List.length_take]
      refine ⟨by omega, fun b hb => ?_⟩
      simpa using List.all_eq_true.mp hzeros b hb
    have hdata : rest.take length = (rest.take (padded length)).take length := by
      rw [List.take_take, Nat.min_eq_left hle]
    rw [← hpadding, hdata, ← List.append_assoc, List.take_append_drop, List.take_append_drop]
  · intro h
    obtain ⟨rfl, after, rfl⟩ := h
    have hdata : (bytes ++ List.replicate (padded bytes.length - bytes.length) 0).length = padded bytes.length := by
      rw [List.length_append, List.length_replicate]
      omega
    refine ⟨?_, ?_, List.take_left⟩
    · rw [← List.append_assoc, List.length_append, hdata]
      exact Nat.le_add_right _ _
    · rw [← List.append_assoc, List.take_left' hdata, List.drop_left]
      simp

/-- What is read where a word says how many bytes there are. -/
theorem tail?_eq_some_iff_of_word {body bytes : Bytes} {offset length : Nat} (h : word? body offset = some length) :
    tail? body offset = .ok (some bytes) ↔ padded length < lengthLimit ∧ bytes.length = length ∧
      ∃ after, body.drop (offset + wordSize) = bytes ++ (List.replicate (padded length - length) 0 ++ after) := by
  rw [← opens_padded_iff]
  simp only [tail?, h]
  generalize body.drop (offset + wordSize) = rest
  grind

/-- **A tail is read exactly where it stands**, if its length can be asked for. -/
theorem tail?_eq_some_iff {body bytes : Bytes} {offset : Nat} : tail? body offset = .ok (some bytes) ↔
    padded bytes.length < lengthLimit ∧
      ∃ before after, body = before ++ (encodeTail bytes ++ after) ∧ before.length = offset := by
  constructor
  · intro h
    cases hword : word? body offset with
    | none => simp [tail?, hword] at h
    | some length =>
      obtain ⟨hlimit, rfl, after, hafter⟩ := (tail?_eq_some_iff_of_word hword).mp h
      obtain ⟨before, rest, rfl, rfl, -⟩ := word?_eq_some_iff.mp hword
      rw [drop_encodeWord] at hafter
      exact ⟨hlimit, before, after, by rw [hafter, encodeTail, List.append_assoc, List.append_assoc], rfl⟩
  · intro h
    obtain ⟨hlimit, before, after, rfl, rfl⟩ := h
    rw [encodeTail, List.append_assoc, List.append_assoc]
    have hword := word?_encodeWord (lt_wordLimit_of_padded hlimit) before
      (bytes ++ (List.replicate (padded bytes.length - bytes.length) 0 ++ after))
    exact (tail?_eq_some_iff_of_word hword).mpr ⟨hlimit, rfl, after, drop_encodeWord _ _ _⟩

/-- A text in UTF-8. -/
def utf8 (s : String) : Bytes := s.toUTF8.data.toList

theorem length_utf8 (s : String) : (utf8 s).length = s.utf8ByteSize := rfl

theorem utf8?_eq_some_iff {bytes : Bytes} {s : String} : utf8? bytes = some s ↔ bytes = utf8 s := by
  unfold utf8? utf8
  constructor
  · intro h
    rw [String.fromUTF8?] at h
    split at h
    · cases h
      rfl
    · cases h
  · rintro rfl
    exact dif_pos s.isValidUTF8

/-- The body lays out a text: its first word tells where the tail is, and there it stands. What lies
between them, and what comes after, does not matter. -/
def LaysOut (body : Bytes) (s : String) : Prop :=
  ∃ between after, body = encodeWord (wordSize + between.length) ++ (between ++ (encodeTail (utf8 s) ++ after)) ∧
    wordSize + between.length < wordLimit ∧ s.utf8ByteSize < wordLimit

/-- A text with its tail right after its head, and nothing else. -/
def encodeText (s : String) : Bytes := encodeWord wordSize ++ encodeTail (utf8 s)

theorem laysOut_encodeText {s : String} (h : s.utf8ByteSize < wordLimit) (after : Bytes) :
    LaysOut (encodeText s ++ after) s :=
  ⟨[], after, by simp [encodeText], by decide, h⟩

theorem LaysOut.words {body : Bytes} {s : String} (h : LaysOut body s) : ∃ offset, word? body 0 = some offset ∧
    wordSize ≤ offset ∧ offset < body.length ∧ word? body offset = some s.utf8ByteSize ∧
      ∃ before after, body = before ++ (encodeTail (utf8 s) ++ after) ∧ before.length = offset := by
  obtain ⟨between, after, rfl, hoffset, hsize⟩ := h
  refine ⟨wordSize + between.length, word?_zero_eq_some_iff.mpr ⟨hoffset, _, rfl⟩, Nat.le_add_right .., ?_⟩
  have hbefore : (encodeWord (wordSize + between.length) ++ between).length = wordSize + between.length := by
    rw [List.length_append, length_encodeWord]
  refine ⟨?_, ?_, _, after, (List.append_assoc ..).symm, hbefore⟩
  · simp only [encodeTail, List.length_append, length_encodeWord, wordSize]
    omega
  · have hword := word?_encodeWord hsize (encodeWord (wordSize + between.length) ++ between)
      ((utf8 s ++ List.replicate (padded s.utf8ByteSize - s.utf8ByteSize) 0) ++ after)
    rw [hbefore] at hword
    rwa [encodeTail, length_utf8, List.append_assoc (encodeWord s.utf8ByteSize), ← List.append_assoc]

theorem overlong_of_laysOut {body : Bytes} {s : String} (h : LaysOut body s)
    (hlimit : lengthLimit ≤ padded s.utf8ByteSize) : Overlong body := by
  obtain ⟨offset, hhead, hafter, hinside, hsize, -⟩ := h.words
  exact ⟨offset, hhead, hafter, hinside, s.utf8ByteSize, hsize, hlimit⟩

/-- **A text is read from the bodies that lay it out**, and from no others. -/
theorem text?_eq_some_iff {body : Bytes} {s : String} :
    text? body = .ok (some s) ↔ LaysOut body s ∧ padded s.utf8ByteSize < lengthLimit := by
  constructor
  · intro h
    unfold text? at h
    split at h
    · cases h
    · rename_i offset hhead
      split at h
      · cases h
      · rename_i hinside
        rcases htail : tail? body offset with e | bytes? <;> rw [htail] at h
        · cases h
        · obtain ⟨bytes, rfl, hutf8⟩ := Option.bind_eq_some_iff.mp (Except.ok.inj h)
          rw [utf8?_eq_some_iff] at hutf8
          subst hutf8
          obtain ⟨hlimit, before, after, hbody, hbefore⟩ := tail?_eq_some_iff.mp htail
          obtain ⟨hoffset, rest, hword⟩ := word?_zero_eq_some_iff.mp hhead
          have hle : wordSize ≤ before.length := by
            simp at hinside
            omega
          obtain ⟨between, rfl⟩ : encodeWord offset <+: before := by
            refine List.prefix_of_prefix_length_le ⟨rest, hword.symm⟩ ⟨_, hbody.symm⟩ ?_
            rwa [length_encodeWord]
          rw [List.length_append, length_encodeWord] at hbefore
          refine ⟨⟨between, after, ?_, hbefore ▸ hoffset, lt_wordLimit_of_padded hlimit⟩, hlimit⟩
          rw [hbefore, hbody, List.append_assoc]
  · intro h
    obtain ⟨hlays, hlimit⟩ := h
    obtain ⟨offset, hhead, hafter, hinside, -, before, after, hbody, hbefore⟩ := hlays.words
    have htail : tail? body offset = .ok (some (utf8 s)) :=
      tail?_eq_some_iff.mpr ⟨hlimit, before, after, hbody, hbefore⟩
    have hcond : ¬ (offset < wordSize || body.length ≤ offset) = true := by simp; omega
    rw [text?, hhead]
    dsimp only
    rw [if_neg hcond, htail]
    exact congrArg Except.ok (utf8?_eq_some_iff.mpr rfl)

end AssertionReplay.Abi
