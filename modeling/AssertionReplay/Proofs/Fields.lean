/-
A record, and the eleven fields that it is written as.

`Record.Normal` is what reading leaves of a record whatever it was read from
(`recordOf_normal`): a hash in lower case that is a number other than zero,
checksummed addresses and numbers that are not negative. A record is
canonical if in addition its numbers have numerals, and then its fields spell
it (`fieldsOf_canonical`): they are read as the record itself, and hold
nothing that a payload or its frame could be confused by.
-/
import AssertionReplay.Payload.Reader
import AssertionReplay.Payload.Writer
import AssertionReplay.Proofs.Checksum
import AssertionReplay.Proofs.Lowercase
import AssertionReplay.Proofs.Numeral
import AssertionReplay.Proofs.Outcome

namespace AssertionReplay

open Text Address

namespace Record

/-- The numbers of a record, in the order of its fields. -/
def quantities (r : Record) : List Quantity :=
  [r.value, r.block, r.index, r.gasPrice, r.gasLimit, r.maxFee, r.maxPriorityFee]

/-- The record is one that can be read from a payload. -/
structure Normal (r : Record) : Prop where
  hash : lower (trim r.hash) = r.hash
  number : ∃ n, readInt? 16 r.hash = some n ∧ n ≠ 0
  sender : IsChecksummed r.sender
  recipient : IsChecksummed r.recipient
  quantities : ∀ q ∈ r.quantities, ∃ n : Nat, q = .int n

/-- The record can be read from a payload, and written to one. -/
structure Canonical (r : Record) : Prop extends Normal r where
  numerals : ∀ q ∈ r.quantities, HasNumeral q.toInt

/-- That a record is canonical can be computed, but for the addresses. -/
theorem Canonical.of_computed {r : Record} (hhash : lower (trim r.hash) = r.hash)
    (hnumber : (readInt? 16 r.hash).any (· != 0) = true) (hsender : IsChecksummed r.sender)
    (hrecipient : IsChecksummed r.recipient) {k : Nat} (hk : k ≤ decimalDigitLimit)
    (hquantities : ∀ q ∈ r.quantities, q = .int (q.toInt.toNat : Int) ∧ q.toInt.natAbs < 10 ^ k) : r.Canonical := by
  obtain ⟨n, hn, hzero⟩ := (Option.any_eq_true ..).mp hnumber
  exact ⟨⟨hhash, ⟨n, hn, by simpa using hzero⟩, hsender, hrecipient, fun q hq => ⟨_, (hquantities q hq).1⟩⟩,
    fun q hq => hasNumeral_of_lt hk (hquantities q hq).2⟩

end Record

/-! ## Bytes -/

namespace Text

theorem hexDigit_facts : ∀ d < 16, hexValue? (hexDigit d) = some d ∧ isAsciiBlank (hexDigit d) = false ∧
    isBlank (hexDigit d) = false ∧ hexDigit d ≠ '|' ∧ hexDigit d ≠ 'T' := by decide

theorem decodeHex?_encodeHex (bs : Bytes) : decodeHex? (encodeHex bs) = some bs := by
  induction bs with
  | nil => rfl
  | cons b bs ih =>
    have hb := b.toNat_lt
    obtain ⟨hhigh, hblank, -⟩ := hexDigit_facts (b.toNat / 16) (by omega)
    obtain ⟨hlow, -⟩ := hexDigit_facts (b.toNat % 16) (by omega)
    have hbyte : UInt8.ofNat (b.toNat / 16 * 16 + b.toNat % 16) = b := by
      rw [Nat.div_add_mod']
      exact UInt8.ofNat_toNat
    have hcons : encodeHex (b :: bs) =
        hexDigit (b.toNat / 16) :: hexDigit (b.toNat % 16) :: encodeHex bs := rfl
    simp [hcons, decodeHex?, hblank, hhigh, hlow, ih, hbyte]

theorem mem_encodeHex {bs : Bytes} {c : Char} (h : c ∈ encodeHex bs) : ∃ d < 16, c = hexDigit d := by
  obtain ⟨b, -, hc⟩ := List.mem_flatMap.mp h
  have hb := b.toNat_lt
  simp only [byteDigits, List.mem_cons, List.not_mem_nil, or_false] at hc
  rcases hc with rfl | rfl
  · exact ⟨_, by omega, rfl⟩
  · exact ⟨_, by omega, rfl⟩

end Text

namespace Field

theorem trim_hexOfBytes (bs : Bytes) : trim (hexOfBytes bs) = hexOfBytes bs := by
  rw [hexOfBytes, ofString_ofList]
  refine trim_ofChars fun c hc => ?_
  simp only [List.mem_cons] at hc
  rcases hc with rfl | rfl | hc
  · rfl
  · rfl
  · obtain ⟨d, hd, rfl⟩ := mem_encodeHex hc
    exact (hexDigit_facts d hd).2.2.1

theorem bytes_hexOfBytes (bs : Bytes) : bytes (.str (hexOfBytes bs)) = .ok bs := by
  have hmark : isHexMarked (ofChars ('0' :: 'x' :: encodeHex bs)) = true := by
    simp [isHexMarked, Text.startsWith, ofString]
  have hread : bytesText (ofChars ('0' :: 'x' :: encodeHex bs)) = .ok bs := by
    simp [bytesText, chars?_ofChars, hmark, decodeHex?_encodeHex]
  rw [hexOfBytes, ofString_ofList, bytes]
  simpa [Json.isGiven, Text.isEmpty] using hread

end Field

/-! ## Reading -/

namespace Payload

theorem inRecord_ok {fields : List Text} {r : Except Fault α} {a : α} :
    inRecord fields r = .ok a ↔ r = .ok a := by
  unfold inRecord
  split <;> simp

theorem int_eq_ok {base : Nat} {t : Text} {n : Int} : Field.int base t = .ok n ↔ readInt? base t = some n := by
  unfold Field.int
  split <;> simp_all

theorem map_int_eq_ok {r : Except Fault Int} {q : Quantity} :
    r.map Quantity.int = .ok q ↔ ∃ n, r = .ok n ∧ q = .int n := by
  cases r <;> simp [Except.map, eq_comm]

/-- What each part of a record is read as. -/
structure Reads (fields : List Text) (extended : Bool) (r : Record) : Prop where
  hash : r.hash = lower (trim (fields.getD 0 ""))
  number : ∃ n, readInt? 16 r.hash = some n ∧ n ≠ 0
  sender : ∃ a, parseText (fields.getD 1 "") = .ok a ∧ r.sender = a
  recipient : ∃ a, parseText (fields.getD 2 "") = .ok a ∧ r.recipient = a
  data : Field.bytes (.str (trim (fields.getD 4 ""))) = .ok r.data
  numbers : List.Forall₂ (fun i q => ∃ n, Field.quantityText (fields.getD i "") = .ok n ∧ q = .int n)
    [3, 5, 6, 7] [r.value, r.block, r.index, r.gasPrice]
  limits : List.Forall₂
    (fun i q => if extended then ∃ n, Field.quantityText (fields.getD i "") = .ok n ∧ q = .int n else q = .int 0)
    [8, 9, 10] [r.gasLimit, r.maxFee, r.maxPriorityFee]

theorem recordOf_eq_ok_iff {fields : List Text} {extended : Bool} {r : Record} :
    recordOf fields extended = .ok r ↔ Reads fields extended r := by
  have hlimit : ∀ {i : Nat} {q : Quantity},
      (if extended then inRecord fields ((Field.quantityText (fields.getD i "")).map Quantity.int)
        else .ok (.int 0)) = .ok q ↔
      if extended then ∃ n, Field.quantityText (fields.getD i "") = .ok n ∧ q = .int n else q = .int 0 := by
    intro i q
    cases extended
    · simp [eq_comm]
    · simp only [if_true, inRecord_ok, map_int_eq_ok]
  constructor
  · intro h
    unfold recordOf at h
    dsimp only at h
    split at h
    · cases h
    · obtain ⟨n, hn, h⟩ := bind_eq_ok_iff.mp h
      split at h
      · cases h
      · rename_i hzero
        simp only [bind_eq_ok_iff, inRecord_ok, map_int_eq_ok, hlimit] at h
        obtain ⟨a, ha, b, hb, v, hv, data, hdata, block, hblock, index, hindex, price, hprice, limit, hlimit',
          fee, hfee, tip, htip, h⟩ := h
        cases h
        exact ⟨rfl, ⟨n, int_eq_ok.mp (inRecord_ok.mp hn), by simpa using hzero⟩, ⟨a, ha, rfl⟩, ⟨b, hb, rfl⟩, hdata,
          by simpa using ⟨hv, hblock, hindex, hprice⟩, by simpa using ⟨hlimit', hfee, htip⟩⟩
  · rintro ⟨hhash, ⟨n, hn, hzero⟩, ⟨a, ha, hsender⟩, ⟨b, hb, hrecipient⟩, hdata, hnumbers, hlimits⟩
    obtain ⟨hash, sender, recipient, value, data, block, index, gasPrice, gasLimit, maxFee, maxPriorityFee⟩ := r
    simp only [List.forall₂_cons, List.forall₂_nil_right_iff, and_true] at hnumbers hlimits
    obtain ⟨hv, hblock, hindex, hprice⟩ := hnumbers
    obtain ⟨hlimit', hfee, htip⟩ := hlimits
    dsimp only at hhash hsender hrecipient hn hdata
    subst hhash hsender hrecipient
    have hempty : (lower (trim (fields.getD 0 ""))).isEmpty = false := by
      rw [Bool.eq_false_iff]
      intro h
      rw [isEmpty_iff.mp h, show readInt? 16 ⟨[]⟩ = none by decide] at hn
      cases hn
    unfold recordOf
    dsimp only
    rw [if_neg (Bool.eq_false_iff.mp hempty), bind_eq_ok_iff]
    refine ⟨n, inRecord_ok.mpr (int_eq_ok.mpr hn), ?_⟩
    rw [if_neg (by simpa using hzero)]
    simp only [bind_eq_ok_iff, inRecord_ok, map_int_eq_ok, hlimit]
    exact ⟨a, ha, b, hb, value, hv, data, hdata, block, hblock, index, hindex, gasPrice, hprice, gasLimit, hlimit',
      maxFee, hfee, maxPriorityFee, htip, rfl⟩

/-- **What is read is normal.** -/
theorem recordOf_normal {fields : List Text} {extended : Bool} {r : Record}
    (h : recordOf fields extended = .ok r) : r.Normal := by
  obtain ⟨hhash, hnumber, ⟨a, ha, hsender⟩, ⟨b, hb, hrecipient⟩, -, hnumbers, hlimits⟩ := recordOf_eq_ok_iff.mp h
  have hread : ∀ {i : Nat} {q : Quantity},
      (∃ n, Field.quantityText (fields.getD i "") = .ok n ∧ q = .int n) → ∃ n : Nat, q = .int n := by
    rintro i q ⟨n, hn, rfl⟩
    exact ⟨n.toNat, by rw [Int.toNat_of_nonneg (Field.nonneg_of_quantityText hn)]⟩
  have hlimit : ∀ {i : Nat} {q : Quantity}, (if extended then
      ∃ n, Field.quantityText (fields.getD i "") = .ok n ∧ q = .int n else q = .int 0) → ∃ n : Nat, q = .int n := by
    intro i q hq
    cases extended
    · exact ⟨0, hq⟩
    · exact hread hq
  simp only [List.forall₂_cons, List.forall₂_nil_right_iff, and_true] at hnumbers hlimits
  obtain ⟨hv, hblock, hindex, hprice⟩ := hnumbers
  obtain ⟨hlimit', hfee, htip⟩ := hlimits
  refine ⟨?_, hnumber, hsender ▸ isChecksummed_of_parse ha, hrecipient ▸ isChecksummed_of_parse hb, ?_⟩
  · rw [hhash, trim_lower_trim, lower_lower]
  · simp only [Record.quantities, List.forall_mem_cons, List.not_mem_nil, false_imp_iff, implies_true, and_true]
    exact ⟨hread hv, hread hblock, hread hindex, hread hprice, hlimit hlimit', hlimit hfee, hlimit htip⟩

/-! ## Writing -/

theorem numberText_eq_ok {q : Quantity} {s : String} : numberText q = .ok s ↔ q.text? = some s := by
  unfold numberText
  split <;> simp_all

theorem numberText_int {n : Int} (h : HasNumeral n) : numberText (.int n) = .ok (decimal n) :=
  numberText_eq_ok.mpr (decimal?_eq_some_iff.mpr h)

/-- A text of characters with neither a bar nor the first letter of the marker among them. -/
def Clean (t : Text) : Prop := ∃ cs, t = ofChars cs ∧ '|' ∉ cs ∧ 'T' ∉ cs

theorem clean_decimal (n : Nat) : Clean (decimal n) := by
  have hfacts : ∀ c ∈ digitChars 10 n, c ≠ '|' ∧ c ≠ 'T' := by
    intro c hc
    obtain ⟨d, hd, rfl⟩ := mem_digitChars hc
    exact (by decide : ∀ d < 10, Nat.digitChar d ≠ '|' ∧ Nat.digitChar d ≠ 'T') d hd
  exact ⟨_, ofString_decimal n, fun h => (hfacts _ h).1 rfl, fun h => (hfacts _ h).2 rfl⟩

theorem clean_hexOfBytes (bs : Bytes) : Clean (Field.hexOfBytes bs) := by
  have hfacts : ∀ c ∈ encodeHex bs, c ≠ '|' ∧ c ≠ 'T' := by
    intro c hc
    obtain ⟨d, hd, rfl⟩ := mem_encodeHex hc
    exact (hexDigit_facts d hd).2.2.2
  refine ⟨_, by rw [Field.hexOfBytes, ofString_ofList], ?_, ?_⟩
  · simpa using fun h => (hfacts _ h).1 rfl
  · simpa using fun h => (hfacts _ h).2 rfl

theorem clean_address {t : Text} (h : IsChecksummed t) : Clean t := by
  obtain ⟨cs, ht, hcs⟩ := h.chars
  refine ⟨_, ht, ?_, ?_⟩
  · simpa using fun h => absurd (hcs _ h) (by decide)
  · simpa using fun h => absurd (hcs _ h) (by decide)

theorem clean_hash {t : Text} {n : Int} (h : readInt? 16 t = some n) : Clean t := by
  have hbar : ForeignToHex '|' := ⟨by decide, rfl, rfl, rfl⟩
  have hletter : ForeignToHex 'T' := ⟨by decide, rfl, rfl, rfl⟩
  obtain ⟨cs, hcs, -⟩ := Option.bind_eq_some_iff.mp h
  rw [chars?_eq_some_iff] at hcs
  subst hcs
  exact ⟨cs, rfl, fun hmem => not_mem_of_readInt? hbar h (List.mem_map_of_mem hmem),
    fun hmem => not_mem_of_readInt? hletter h (List.mem_map_of_mem hmem)⟩

/-! ## Rows -/

/-- The fields of a record, with the given texts in the place of its numbers. -/
def rowOf (r : Record) (numbers : List Text) : List Text :=
  [r.hash, r.sender, if r.isCreation then "" else r.recipient, numbers.headD "", Field.hexOfBytes r.data] ++
    numbers.tail

variable {r : Record} {numbers : List Text}

/-- The text is read as the number. -/
def ReadAs (t : Text) (q : Quantity) : Prop := ∃ n, Field.quantityText t = .ok n ∧ q = .int n

theorem rowOf_eq {S : Text → Quantity → Prop} (h : List.Forall₂ S numbers r.quantities) :
    ∃ value block index gasPrice gasLimit maxFee maxPriorityFee,
      numbers = [value, block, index, gasPrice, gasLimit, maxFee, maxPriorityFee] ∧
      rowOf r numbers = [r.hash, r.sender, if r.isCreation then "" else r.recipient, value,
        Field.hexOfBytes r.data, block, index, gasPrice, gasLimit, maxFee, maxPriorityFee] := by
  simp only [Record.quantities, List.forall₂_cons_right_iff, List.forall₂_nil_right_iff] at h
  obtain ⟨value, _, -, ⟨block, _, -, ⟨index, _, -, ⟨price, _, -, ⟨limit, _, -, ⟨fee, _, -, ⟨tip, _, -, rfl, rfl⟩,
    rfl⟩, rfl⟩, rfl⟩, rfl⟩, rfl⟩, rfl⟩ := h
  exact ⟨value, block, index, price, limit, fee, tip, rfl, rfl⟩

/-- **A row is read as its record**, whatever its numbers are spelled like. -/
theorem recordOf_rowOf (h : r.Normal) (hnumbers : List.Forall₂ ReadAs numbers r.quantities) :
    recordOf (rowOf r numbers) true = .ok r := by
  obtain ⟨value, block, index, price, limit, fee, tip, rfl, hrow⟩ := rowOf_eq hnumbers
  simp only [Record.quantities, List.forall₂_cons, List.forall₂_nil_right_iff, and_true] at hnumbers
  obtain ⟨hvalue, hblock, hindex, hprice, hlimit, hfee, htip⟩ := hnumbers
  have hrecipient : ∃ a, parseText (if r.isCreation then "" else r.recipient) = .ok a ∧ r.recipient = a := by
    by_cases hcreation : r.isCreation
    · exact ⟨zero, by rw [if_pos hcreation]; rfl, by simpa [Record.isCreation] using hcreation⟩
    · rw [if_neg hcreation]
      exact h.recipient
  rw [hrow]
  refine recordOf_eq_ok_iff.mpr ⟨h.hash.symm, h.number, h.sender, hrecipient, ?_, ?_, ?_⟩
  · exact (congrArg (Field.bytes <| .str ·) (Field.trim_hexOfBytes r.data)).trans (Field.bytes_hexOfBytes r.data)
  · simp only [List.forall₂_cons, List.forall₂_nil_right_iff, and_true]
    exact ⟨hvalue, hblock, hindex, hprice⟩
  · simp only [List.forall₂_cons, List.forall₂_nil_right_iff, and_true, if_true]
    exact ⟨hlimit, hfee, htip⟩

theorem forall_mem_rowOf {P : Text → Prop} {S : Text → Quantity → Prop} (hlength : List.Forall₂ S numbers r.quantities)
    (hhash : P r.hash) (hsender : P r.sender) (hrecipient : P r.recipient) (hempty : P "")
    (hdata : P (Field.hexOfBytes r.data)) (hnumbers : ∀ t ∈ numbers, P t) : ∀ t ∈ rowOf r numbers, P t := by
  obtain ⟨value, block, index, price, limit, fee, tip, rfl, hrow⟩ := rowOf_eq hlength
  have hgiven : P (if r.isCreation then "" else r.recipient) := by
    split
    · exact hempty
    · exact hrecipient
  simp only [List.forall_mem_cons, List.not_mem_nil, false_imp_iff, implies_true, and_true] at hnumbers
  rw [hrow]
  simp only [List.forall_mem_cons, List.not_mem_nil, false_imp_iff, implies_true, and_true]
  exact ⟨hhash, hsender, hgiven, hnumbers.1, hdata, hnumbers.2⟩

theorem clean_rowOf {S : Text → Quantity → Prop} (h : r.Normal) (hlength : List.Forall₂ S numbers r.quantities)
    (hnumbers : ∀ t ∈ numbers, Clean t) : ∀ t ∈ rowOf r numbers, Clean t := by
  obtain ⟨n, hn, -⟩ := h.number
  exact forall_mem_rowOf hlength (clean_hash hn) (clean_address h.sender) (clean_address h.recipient)
    ⟨[], rfl, by simp, by simp⟩ (clean_hexOfBytes _) hnumbers

/-- A number, and its numeral. -/
def Written (n : Nat) (q : Quantity) : Prop := q = .int n ∧ HasNumeral n

theorem exists_written (h : r.Canonical) : ∃ ns, List.Forall₂ Written ns r.quantities := by
  have hnumbers : ∀ q ∈ r.quantities, ∃ n : Nat, Written n q := by
    intro q hq
    obtain ⟨n, rfl⟩ := h.quantities q hq
    exact ⟨n, rfl, h.numerals _ hq⟩
  generalize r.quantities = qs at hnumbers ⊢
  induction qs with
  | nil => exact ⟨[], .nil⟩
  | cons q qs ih =>
    obtain ⟨⟨n, hn⟩, hrest⟩ := List.forall_mem_cons.mp hnumbers
    obtain ⟨ns, hns⟩ := ih hrest
    exact ⟨n :: ns, .cons hn hns⟩

/-- The decimal digits of numbers. -/
def decimals (ns : List Nat) : List Text := ns.map fun n : Nat => (decimal n : Text)

variable {ns : List Nat}

theorem readAs_decimals (h : List.Forall₂ Written ns r.quantities) :
    List.Forall₂ ReadAs (decimals ns) r.quantities := by
  rw [decimals, List.forall₂_map_left_iff]
  exact h.imp fun n q hn => ⟨n, Field.quantityText_decimal hn.2, hn.1⟩

theorem forall_mem_decimals {P : Text → Prop} (h : ∀ n : Nat, P (decimal n)) : ∀ t ∈ decimals ns, P t :=
  List.forall_mem_map.mpr fun n _ => h n

/-- **What is written of a canonical record** is the row with its numbers in decimal digits. -/
theorem fieldsOf_rowOf (h : List.Forall₂ Written ns r.quantities) : fieldsOf r = .ok (rowOf r (decimals ns)) := by
  simp only [Record.quantities, List.forall₂_cons_right_iff, List.forall₂_nil_right_iff] at h
  obtain ⟨_, _, ⟨hvalue, hvalue'⟩, ⟨_, _, ⟨hblock, hblock'⟩, ⟨_, _, ⟨hindex, hindex'⟩, ⟨_, _, ⟨hprice, hprice'⟩,
    ⟨_, _, ⟨hlimit, hlimit'⟩, ⟨_, _, ⟨hfee, hfee'⟩, ⟨_, _, ⟨htip, htip'⟩, rfl, rfl⟩, rfl⟩, rfl⟩, rfl⟩, rfl⟩, rfl⟩,
    rfl⟩ := h
  simp only [fieldsOf, hvalue, hblock, hindex, hprice, hlimit, hfee, htip, numberText_int, hvalue', hblock',
    hindex', hprice', hlimit', hfee', htip']
  rfl

/-- The fields spell a record, and can stand between bars and inside of a frame. -/
structure Spelled (fields : List Text) (r : Record) : Prop where
  length : fields.length = extendedFields
  read : recordOf fields true = .ok r
  clean : ∀ t ∈ fields, Clean t
  last : ∃ n : Nat, fields.getLast? = some (decimal n : Text)

/-- **The fields of a canonical record.** -/
theorem fieldsOf_canonical (h : r.Canonical) : ∃ fields, fieldsOf r = .ok fields ∧ Spelled fields r := by
  obtain ⟨ns, hns⟩ := exists_written h
  have hread := readAs_decimals hns
  refine ⟨_, fieldsOf_rowOf hns, ?_, recordOf_rowOf h.toNormal hread,
    clean_rowOf h.toNormal hread (forall_mem_decimals clean_decimal), ?_⟩
  · obtain ⟨_, _, _, _, _, _, _, -, hrow⟩ := rowOf_eq hread
    rw [hrow]
    rfl
  · obtain ⟨_, _, _, _, _, _, tip, hnumbers, hrow⟩ := rowOf_eq hread
    have htip : tip ∈ decimals ns := by simp [hnumbers]
    obtain ⟨n, -, rfl⟩ := List.mem_map.mp htip
    exact ⟨n, by rw [hrow]; rfl⟩

/-- **What is written of a record.** Its numbers are written as they are shown. -/
theorem exists_of_fieldsOf {r : Record} {fields : List Text} (h : fieldsOf r = .ok fields) :
    ∃ value block index gasPrice gasLimit maxFee maxPriorityFee : String,
      List.Forall₂ (fun q s => q.text? = some s) r.quantities
        [value, block, index, gasPrice, gasLimit, maxFee, maxPriorityFee] ∧
      fields = [r.hash, r.sender, if r.isCreation then "" else r.recipient, value, Field.hexOfBytes r.data, block,
        index, gasPrice, gasLimit, maxFee, maxPriorityFee] := by
  simp only [fieldsOf, bind_eq_ok_iff, numberText_eq_ok] at h
  obtain ⟨value, hvalue, block, hblock, index, hindex, price, hprice, limit, hlimit, fee, hfee, tip, htip, h⟩ := h
  cases h
  refine ⟨value, block, index, price, limit, fee, tip, ?_, rfl⟩
  simpa [Record.quantities] using ⟨hvalue, hblock, hindex, hprice, hlimit, hfee, htip⟩

theorem length_fieldsOf {r : Record} {fields : List Text} (h : fieldsOf r = .ok fields) :
    fields.length = extendedFields := by
  obtain ⟨_, _, _, _, _, _, _, -, rfl⟩ := exists_of_fieldsOf h
  rfl

theorem text_of_fieldsOf {r : Record} {fields : List Text} (h : fieldsOf r = .ok fields) :
    ∀ q ∈ r.quantities, ∃ s, q.text? = some s := by
  obtain ⟨_, _, _, _, _, _, _, htexts, -⟩ := exists_of_fieldsOf h
  intro q hq
  obtain ⟨s, -, hs⟩ := exists_of_forall₂ htexts hq
  exact ⟨s, hs⟩

theorem mem_text? {q : Quantity} {s : String} (h : q.text? = some s) : s.toList ≠ [] ∧
    ∀ c ∈ s.toList, (∃ d < 10, c = Nat.digitChar d) ∨ c ∈ ['-', 'T', 'r', 'u', 'e', 'F', 'a', 'l', 's'] := by
  cases q with
  | int n =>
    obtain rfl : decimal n = s := by
      simp only [Quantity.text?, decimal?, Option.ite_none_right_eq_some, Option.some.injEq] at h
      exact h.2
    cases n with
    | ofNat m =>
      rw [decimal, String.toList_ofList]
      exact ⟨digitChars_ne_nil m, fun c hc => .inl (mem_digitChars hc)⟩
    | negSucc m =>
      refine ⟨by simp [decimal], fun c hc => ?_⟩
      rw [decimal, String.toList_ofList, List.mem_cons] at hc
      exact hc.elim (fun h => .inr (by simp [h])) fun h => .inl (mem_digitChars h)
  | flag b =>
    have hname : s.toList ≠ [] ∧ s.toList.all ['-', 'T', 'r', 'u', 'e', 'F', 'a', 'l', 's'].contains = true := by
      cases b <;> cases h <;> decide
    exact ⟨hname.1, fun c hc => .inr (List.contains_iff_mem.mp (List.all_eq_true.mp hname.2 c hc))⟩

/-- The last field is a number, after which nothing would be trimmed. -/
theorem unpadded_fieldsOf {r : Record} {fields : List Text} (h : fieldsOf r = .ok fields) :
    ∃ t, fields.getLast? = some t ∧ Unpadded t := by
  obtain ⟨_, _, _, _, _, _, tip, htexts, rfl⟩ := exists_of_fieldsOf h
  simp only [Record.quantities, List.forall₂_cons] at htexts
  obtain ⟨hne, hchars⟩ := mem_text? htexts.2.2.2.2.2.2.1
  refine ⟨tip, rfl, unpadded_ofChars hne fun c hc => ?_⟩
  rcases hchars c hc with ⟨d, hd, rfl⟩ | hc
  · exact (by decide : ∀ d < 10, isBlank (Nat.digitChar d) = false) d hd
  · have hall : ['-', 'T', 'r', 'u', 'e', 'F', 'a', 'l', 's'].all (fun c => !isBlank c) = true := by decide
    simpa using List.all_eq_true.mp hall c hc

/-- **A normal record is canonical if it can be written.** -/
theorem canonical_of_fieldsOf {r : Record} {fields : List Text} (hr : r.Normal) (h : fieldsOf r = .ok fields) :
    r.Canonical := by
  refine ⟨hr, fun q hq => ?_⟩
  obtain ⟨n, rfl⟩ := hr.quantities q hq
  obtain ⟨s, hs⟩ := text_of_fieldsOf h _ hq
  by_contra hn
  exact absurd (hs.symm.trans (decimal?_eq_none_iff.mpr hn)) (by simp)

end Payload
end AssertionReplay
