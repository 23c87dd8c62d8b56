/-
When the reason of a failed execution can be read.

It always can, but for a text whose length is beyond what can be asked for
(`Revert.Overlong`): other data that is not laid out as it should be has a
reason too, which names the selector.
-/
import AssertionReplay.Revert

namespace AssertionReplay

namespace Abi

/-- The length at an offset cannot be asked for. -/
def LengthBeyond (body : Bytes) (offset : Nat) : Prop :=
  ∃ length, word? body offset = some length ∧ lengthLimit ≤ padded length

/-- The text that the head points at is too long. -/
def Overlong (body : Bytes) : Prop :=
  ∃ offset, word? body 0 = some offset ∧ wordSize ≤ offset ∧ offset < body.length ∧ LengthBeyond body offset

theorem tail?_cases (body : Bytes) (offset : Nat) :
    (∃ bytes, tail? body offset = .ok bytes ∧ ¬ LengthBeyond body offset) ∨
    tail? body offset = .error .outOfRange ∧ LengthBeyond body offset := by
  unfold tail? LengthBeyond
  cases hword : word? body offset with
  | none => exact .inl ⟨none, rfl, by simp⟩
  | some length =>
    by_cases hlimit : lengthLimit ≤ padded length
    · exact .inr ⟨if_pos hlimit, length, rfl, hlimit⟩
    · have hno : ¬ ∃ l, some length = some l ∧ lengthLimit ≤ padded l := by
        rintro ⟨l, hl, hbeyond⟩
        cases hl
        exact hlimit hbeyond
      dsimp only
      rw [if_neg hlimit]
      split
      · exact .inl ⟨_, rfl, hno⟩
      · split <;> exact .inl ⟨_, rfl, hno⟩

theorem text?_cases (body : Bytes) : (∃ read, text? body = .ok read ∧ ¬ Overlong body) ∨
    text? body = .error .outOfRange ∧ Overlong body := by
  unfold text? Overlong
  cases hword : word? body 0 with
  | none => exact .inl ⟨none, rfl, by simp⟩
  | some offset =>
    by_cases hinside : wordSize ≤ offset ∧ offset < body.length
    · have hcond : ¬ (offset < wordSize || body.length ≤ offset) = true := by simp; omega
      dsimp only
      rw [if_neg hcond]
      rcases tail?_cases body offset with ⟨bytes, htail, hno⟩ | ⟨htail, hbeyond⟩ <;> rw [htail]
      · refine .inl ⟨_, rfl, ?_⟩
        rintro ⟨_, hoffset, -, -, hbeyond⟩
        cases hoffset
        exact hno hbeyond
      · exact .inr ⟨rfl, offset, rfl, hinside.1, hinside.2, hbeyond⟩
    · have hcond : (offset < wordSize || body.length ≤ offset) = true := by simp; omega
      dsimp only
      rw [if_pos hcond]
      refine .inl ⟨none, rfl, ?_⟩
      rintro ⟨_, hoffset, hword, hlength, -⟩
      cases hoffset
      exact hinside ⟨hword, hlength⟩

end Abi

namespace Revert

/-- The data of an error with a text that is too long. -/
def Overlong (data : Bytes) : Prop :=
  data.take 4 = errorSelector ∧ Abi.Overlong (data.drop 4)

/-- **The reason can be read unless the data is overlong.** -/
theorem reason_cases (data : Bytes) : (∃ text, reason data = .ok text ∧ ¬ Overlong data) ∨
    reason data = .error .outOfRange ∧ Overlong data := by
  have hother : data.take 4 ≠ errorSelector → ¬ Overlong data := fun hne h => hne h.1
  unfold reason
  by_cases hshort : data.length < 4
  · rw [if_pos hshort]
    refine .inl ⟨_, rfl, hother fun h => ?_⟩
    have hlength := congrArg List.length h
    rw [List.length_take, errorSelector] at hlength
    simp at hlength
    omega
  · rw [if_neg hshort]
    dsimp only
    split
    · rename_i hpanic
      have hne : data.take 4 ≠ errorSelector := by
        rw [eq_of_beq hpanic]
        decide
      split <;> exact .inl ⟨_, rfl, hother hne⟩
    · split
      · rename_i herror
        rcases Abi.text?_cases (data.drop 4) with ⟨read, htext, hno⟩ | ⟨htext, hover⟩ <;> rw [htext]
        · exact .inl ⟨_, rfl, fun h => hno h.2⟩
        · exact .inr ⟨rfl, eq_of_beq herror, hover⟩
      · rename_i hne
        exact .inl ⟨_, rfl, hother fun h => hne (by rw [h]; rfl)⟩

end Revert
end AssertionReplay
