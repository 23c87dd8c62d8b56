/-
Reasons that are encoded are read back.

An error's text is the reason for every body that lays it out, and nothing else
is read as a text (`reason_ok_cases`): what the reader makes up itself starts
in one of three ways. A panic's reason tells its code, since the texts of
different codes differ (`panicText_inj`).
-/
import AssertionReplay.Proofs.Digits
import AssertionReplay.Proofs.Encoding

namespace AssertionReplay

open Text

namespace Text

/-- Hexadecimal digits tell the number, also with zeros in front. -/
theorem hexDigits_inj {zeros zeros' m n : Nat}
    (h : List.replicate zeros '0' ++ digitChars 16 m = List.replicate zeros' '0' ++ digitChars 16 n) : m = n := by
  obtain ⟨ds, -, hds, hm, rfl⟩ := exists_padded (by decide : 1 < 16) zeros m
  obtain ⟨ds', -, hds', hn, rfl⟩ := exists_padded (by decide : 1 < 16) zeros' n
  have hread : ∀ es : List Nat, (∀ d ∈ es, d < 16) → (es.map Nat.digitChar).filterMap (digitIn? 16) = es := by
    intro es hes
    have hsome : ∀ d ∈ es, (digitIn? 16 ∘ Nat.digitChar) d = some d := fun d hd => (digitChar_facts d (hes d hd)).1
    rw [List.filterMap_map, List.filterMap_congr hsome, List.filterMap_some]
  rw [hm, hn] at h
  rw [← hread ds hds, h, hread ds' hds']

end Text

namespace Revert

/-! ## Panics -/

theorem codeText_eq (code : Nat) : codeText code = String.ofList ((Nat.toDigits 16 code).leftpad 2 '0') := by
  unfold codeText digitChars List.leftpad
  dsimp only
  congr 1
  rcases hdigits : Nat.toDigits 16 code with _ | ⟨c, _ | ⟨d, cs⟩⟩
  · exact absurd hdigits Nat.toDigits_ne_nil
  · rfl
  · simp

theorem codeText_inj {c d : Nat} (h : codeText c = codeText d) : c = d := by
  rw [codeText_eq, codeText_eq, String.ofList_inj] at h
  exact hexDigits_inj h

/-- What a panic tells besides that it is one. -/
def panicReason (code : Nat) : String :=
  match panicReasons.lookup code with
  | some reason => reason
  | none => "unknown code 0x" ++ codeText code

theorem panicText_eq (code : Nat) : panicText code = "Panic: " ++ panicReason code := by
  unfold panicText panicReason
  cases panicReasons.lookup code with
  | some reason => rfl
  | none =>
    dsimp only
    rw [← String.append_assoc]
    rfl

/-- A known code has a reason of its own, which is not worded as that of an unknown one. -/
theorem panicReasons_facts : ∀ p ∈ panicReasons, (∀ q ∈ panicReasons, p.2 = q.2 → p.1 = q.1) ∧
    ¬ "unknown code 0x".toList <+: p.2.toList := by decide

theorem mem_of_lookup {code : Nat} {reason : String} (h : panicReasons.lookup code = some reason) :
    (code, reason) ∈ panicReasons := by
  obtain ⟨before, after, hsplit, -⟩ := List.lookup_eq_some_iff.mp h
  rw [hsplit]
  simp

theorem panicReason_inj {c d : Nat} (h : panicReason c = panicReason d) : c = d := by
  have hknown : ∀ {code code' reason}, panicReasons.lookup code = some reason →
      reason ≠ "unknown code 0x" ++ codeText code' := by
    rintro code code' _ hlookup rfl
    exact (panicReasons_facts _ (mem_of_lookup hlookup)).2 (by simp)
  unfold panicReason at h
  cases hc : panicReasons.lookup c with
  | some reason =>
    cases hd : panicReasons.lookup d with
    | some reason' =>
      rw [hc, hd] at h
      exact (panicReasons_facts _ (mem_of_lookup hc)).1 _ (mem_of_lookup hd) h
    | none =>
      rw [hc, hd] at h
      exact absurd h (hknown hc)
  | none =>
    cases hd : panicReasons.lookup d with
    | some reason' =>
      rw [hc, hd] at h
      exact absurd h.symm (hknown hd)
    | none =>
      rw [hc, hd] at h
      exact codeText_inj (String.append_right_inj _ |>.mp h)

/-- **The texts of different panics differ.** -/
theorem panicText_inj {c d : Nat} (h : panicText c = panicText d) : c = d := by
  rw [panicText_eq, panicText_eq] at h
  exact panicReason_inj (String.append_right_inj _ |>.mp h)

/-! ## Reading -/

theorem reason_of_panic (body : Bytes) : reason (panicSelector ++ body) =
    .ok (match Abi.number? body with
      | some code => panicText code
      | none => customText panicSelector) := by
  have hlength : panicSelector.length = 4 := rfl
  unfold reason
  rw [if_neg (by simp [panicSelector]), List.take_left' hlength, List.drop_left' hlength]
  dsimp only
  rw [if_pos (beq_self_eq_true _)]
  cases Abi.number? body <;> rfl

theorem reason_of_error (body : Bytes) : reason (errorSelector ++ body) =
    (Abi.text? body).map fun text? => text?.getD (customText errorSelector) := by
  have hlength : errorSelector.length = 4 := rfl
  unfold reason
  rw [if_neg (by simp [errorSelector]), List.take_left' hlength, List.drop_left' hlength]
  dsimp only
  rw [if_neg (by decide), if_pos (beq_self_eq_true _)]

/-- The data is an error that lays out a text. -/
def Tells (data : Bytes) (text : String) : Prop :=
  ∃ body, data = errorSelector ++ body ∧ Abi.LaysOut body text

theorem reason_of_laysOut {body : Bytes} {text : String} (h : Abi.LaysOut body text)
    (hlimit : Abi.padded text.utf8ByteSize < Abi.lengthLimit) : reason (errorSelector ++ body) = .ok text := by
  rw [reason_of_error, Abi.text?_eq_some_iff.mpr ⟨h, hlimit⟩]
  rfl

theorem Tells.reason {data : Bytes} {text read : String} (h : Tells data text) (hread : reason data = .ok read) :
    read = text := by
  obtain ⟨body, rfl, hlays⟩ := h
  by_cases hlimit : Abi.padded text.utf8ByteSize < Abi.lengthLimit
  · rw [reason_of_laysOut hlays hlimit] at hread
    exact (Except.ok.inj hread).symm
  · have hover : Overlong (errorSelector ++ body) :=
      ⟨rfl, Abi.overlong_of_laysOut hlays (Nat.le_of_not_lt hlimit)⟩
    rcases reason_cases (errorSelector ++ body) with ⟨_, -, hno⟩ | ⟨herror, -⟩
    · exact absurd hover hno
    · rw [herror] at hread
      cases hread

/-- How the reasons begin that no text is read for. -/
def ownHeads : List String := ["Unknown error", "Panic: ", "Custom error: "]

/-- **A reason is the text that the data lays out, or one of the reader's own.** -/
theorem reason_ok_cases {data : Bytes} {text : String} (h : reason data = .ok text) :
    Tells data text ∨ (∀ s, ¬ Tells data s) ∧ ∃ head ∈ ownHeads, ∃ rest, text = head ++ rest := by
  by_cases htells : ∃ s, Tells data s
  · obtain ⟨s, hs⟩ := htells
    rw [hs.reason h]
    exact .inl hs
  · refine .inr ⟨fun s hs => htells ⟨s, hs⟩, ?_⟩
    have hcustom : ∀ selector, ∃ head ∈ ownHeads, ∃ rest, customText selector = head ++ rest := fun selector =>
      ⟨"Custom error: ", by simp [ownHeads], _, rfl⟩
    unfold reason at h
    split at h
    · cases h
      exact ⟨"Unknown error", by simp [ownHeads], "", rfl⟩
    · dsimp only at h
      split at h
      · split at h <;> cases h
        · exact ⟨"Panic: ", by simp [ownHeads], _, panicText_eq _⟩
        · exact hcustom _
      · split at h
        · rename_i hselector
          rcases htext : Abi.text? (data.drop 4) with e | _ | s <;> rw [htext] at h <;> cases h
          · exact hcustom _
          · refine absurd ⟨s, data.drop 4, ?_, (Abi.text?_eq_some_iff.mp htext).1⟩ htells
            rw [← eq_of_beq hselector, List.take_append_drop]
        · cases h
          exact hcustom _

/-- **Reading a reason undoes encoding it**, whatever comes after: a text is read back, and a panic's
code is told by the reason in the table, or by its digits. Different codes are told differently. -/
theorem encoded_reasons_read_back :
    (∀ (text : String) (after : Bytes), text.utf8ByteSize < 2 ^ 63 - 32 →
      reason (errorSelector ++ Abi.encodeText text ++ after) = .ok text) ∧
    (∀ (code : Nat) (after : Bytes), code < 2 ^ 256 →
      reason (panicSelector ++ Abi.encodeWord code ++ after) = .ok ("Panic: " ++
        match panicReasons.lookup code with
        | some reason => reason
        | none => "unknown code 0x" ++ String.ofList ((Nat.toDigits 16 code).leftpad 2 '0'))) ∧
    ∀ (code code' : Nat) (after after' : Bytes), code < 2 ^ 256 → code' < 2 ^ 256 →
      reason (panicSelector ++ Abi.encodeWord code ++ after) =
        reason (panicSelector ++ Abi.encodeWord code' ++ after') → code = code' := by
  have hpanic : ∀ (code : Nat) (after : Bytes), code < 2 ^ 256 →
      reason (panicSelector ++ Abi.encodeWord code ++ after) = .ok (panicText code) := by
    intro code after hcode
    rw [List.append_assoc, reason_of_panic, Abi.number?, Abi.word?_zero_eq_some_iff.mpr ⟨hcode, after, rfl⟩]
  refine ⟨fun text after htext => ?_, fun code after hcode => ?_, fun code code' after after' hcode hcode' h => ?_⟩
  · have hpadded : Abi.padded text.utf8ByteSize < Abi.lengthLimit := by
      have hlt := Abi.padded_lt text.utf8ByteSize
      have hlimit : Abi.lengthLimit = 2 ^ 63 := rfl
      rw [Abi.wordSize] at hlt
      omega
    rw [List.append_assoc]
    exact reason_of_laysOut (Abi.laysOut_encodeText (Abi.lt_wordLimit_of_padded hpadded) after) hpadded
  · rw [hpanic code after hcode, panicText_eq, panicReason, codeText_eq]
  · rw [hpanic code after hcode, hpanic code' after' hcode'] at h
    exact panicText_inj (Except.ok.inj h)

/-- A text of three bytes, and codes with and without a reason in the table, each with a byte after it. -/
theorem encoded_reasons_read_back_sample :
    ("aé".utf8ByteSize < 2 ^ 63 - 32 ∧ 0x32 < 2 ^ 256 ∧ 0x9 < 2 ^ 256) ∧
      reason (errorSelector ++ Abi.encodeText "aé" ++ [1]) = .ok "aé" ∧
      reason (panicSelector ++ Abi.encodeWord 0x32 ++ [1]) = .ok "Panic: array out-of-bounds access" ∧
      reason (panicSelector ++ Abi.encodeWord 0x9 ++ [1]) = .ok "Panic: unknown code 0x09" ∧
      reason (panicSelector ++ Abi.encodeWord 0x9 ++ [1]) ≠ reason (panicSelector ++ Abi.encodeWord 0x32 ++ []) := by
  obtain ⟨htext, hpanic, hdistinct⟩ := encoded_reasons_read_back
  refine ⟨by decide, htext "aé" [1] (by decide), hpanic 0x32 [1] (by decide), hpanic 0x9 [1] (by decide), fun h => ?_⟩
  exact absurd (hdistinct 0x9 0x32 [1] [] (by decide) (by decide) h) (by decide)

end Revert
end AssertionReplay
