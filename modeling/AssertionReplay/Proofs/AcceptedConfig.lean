/-
What is known of parameters that are accepted.

Parameters that are read passed every check (`Config.checked_of_read`): the
target is an address in its checksummed form, and the numbers are in order. So
the blocks to be fetched are a range of at least one block, none of them below
block one (`Config.Checked.range`).
-/
import AssertionReplay.Config
import AssertionReplay.Proofs.Checksum
import AssertionReplay.Proofs.Range

namespace AssertionReplay

open Text

namespace Number

variable {m n : Number} {x : Binary64}

theorem sub?_real (h : m.sub? (.real x) = some n) : ∃ y, n = .real y := by
  cases m <;> simp only [sub?, Option.bind_eq_bind, Option.bind_eq_some_iff] at h <;>
    obtain ⟨p, -, q, -, h⟩ := h <;> exact ⟨_, (Option.some.inj h).symm⟩

theorem add?_real (h : (Number.real x).add? m = some n) : ∃ y, n = .real y := by
  simp only [add?, Option.bind_eq_bind, Option.bind_eq_some_iff] at h
  obtain ⟨p, -, q, -, h⟩ := h
  exact ⟨_, (Option.some.inj h).symm⟩

end Number

namespace Config

variable {env : String → Option Text} {raw : OrderedMap Json} {c : Config}

theorem liftConfig_eq_ok_iff {x : Except ConfigFault α} {a : α} : liftConfig x = .ok a ↔ x = .ok a := by
  cases x <;> simp [liftConfig]

theorem refuseIf_eq_ok_iff {p : Bool} {e : ε} {u : Unit} : refuseIf p e = .ok u ↔ p = false := by
  cases p <;> simp [refuseIf]

theorem numberField_eq_ok_iff {v : Json} {n : Number} : numberField v = .ok n ↔ v.number? = some n := by
  unfold numberField
  cases v.number? <;> simp

theorem countField_eq_ok_iff {v : Json} {tooSmall : Number → Fault} {n : Number} :
    countField v tooSmall = .ok n ↔ v.number? = some n ∧ n.lt (.int 1) = false := by
  simp only [countField, bind_eq_ok_iff, numberField_eq_ok_iff, refuseIf_eq_ok_iff]
  constructor
  · intro h
    obtain ⟨m, hm, _, hlt, h⟩ := h
    cases h
    exact ⟨hm, hlt⟩
  · intro h
    exact ⟨n, h.1, (), h.2, rfl⟩

theorem readTarget_eq_ok_iff {v : Json} {target : String} :
    readTarget v = .ok target ↔ Address.parse v = .ok target ∧ target ≠ Address.zero := by
  unfold readTarget
  rcases Address.parse v with e | a
  · cases e <;> simp
  · by_cases hzero : a = Address.zero
    · simp only [hzero, beq_self_eq_true, if_true, reduceCtorEq, Except.ok.injEq, false_iff, not_and, not_not]
      exact Eq.symm
    · simp only [beq_eq_false_iff_ne.mpr hzero, Bool.false_eq_true, if_false, Except.ok.injEq, iff_self_and]
      intro h
      exact h ▸ hzero

/-- The target was read as an address, and no number is too small. -/
structure Checked (c : Config) : Prop where
  target : ∃ v, Address.parse v = .ok c.target
  endBlock : c.endBlock.lt (.int 1) = false
  blockRange : c.blockRange.lt (.int 1) = false
  batchSize : c.batchSize.lt (.int 1) = false
  concurrency : c.concurrency.lt (.int 1) = false

/-- The parameters as given and as accepted, by what is checked of them. -/
structure Given.Passes (g : Given) (c : Config) : Prop where
  current : g.isCurrent = true
  url : g.url.isGiven = true
  target : Address.parse g.target = .ok c.target
  target_ne_zero : c.target ≠ Address.zero
  endBlock : g.endBlock.number? = some c.endBlock
  endBlock_ge : c.endBlock.lt (.int 1) = false
  blockRange : g.blockRange.number? = some c.blockRange
  blockRange_ge : c.blockRange.lt (.int 1) = false
  batchSize : g.batchSize.number? = some c.batchSize
  batchSize_ge : c.batchSize.lt (.int 1) = false
  concurrency : g.concurrency.number? = some c.concurrency
  concurrency_ge : c.concurrency.lt (.int 1) = false

theorem Given.passes_of_check {g : Given} (h : g.check = .ok c) : g.Passes c := by
  simp only [check, bind_eq_ok_iff, refuseIf_eq_ok_iff, readTarget_eq_ok_iff, countField_eq_ok_iff,
    numberField_eq_ok_iff, liftConfig_eq_ok_iff] at h
  obtain ⟨_, hcurrent, _, hurl, target, ⟨htarget, hzero⟩, endBlock, ⟨hend, hendge⟩, blockRange,
    ⟨hrange, hrangege⟩, _, -, _, -, batchSize, ⟨hsize, hsizege⟩, concurrency, ⟨hconc, hconcge⟩, timeout, -,
    _, -, h⟩ := h
  cases h
  exact ⟨by simpa using hcurrent, by simpa using hurl, htarget, hzero, hend, hendge, hrange, hrangege, hsize,
    hsizege, hconc, hconcge⟩

theorem Given.Passes.checked {g : Given} (h : g.Passes c) : c.Checked :=
  ⟨⟨_, h.target⟩, h.endBlock_ge, h.blockRange_ge, h.batchSize_ge, h.concurrency_ge⟩

theorem read_eq_ok_iff : read env raw = .ok c ↔ ∃ g, fill env raw = .ok g ∧ g.check = .ok c := by
  simp only [read, bind_eq_ok_iff, liftConfig_eq_ok_iff]

/-- **What is read has passed its checks.** -/
theorem checked_of_read (h : read env raw = .ok c) : c.Checked := by
  obtain ⟨g, -, hcheck⟩ := read_eq_ok_iff.mp h
  exact (Given.passes_of_check hcheck).checked

theorem Checked.parse_target (h : c.Checked) : Address.parse (.str c.target) = .ok c.target := by
  obtain ⟨v, hv⟩ := h.target
  exact Address.parse_parsed hv

theorem whole_not_lt_one {n : Int} (h : (Number.int n).lt (.int 1) = false) : 1 ≤ n := by
  rw [Number.lt_int, decide_eq_false_iff_not] at h
  omega

/-- **The range** has a block, and starts at block one or later. -/
theorem Checked.range (h : c.Checked) {a b : Int} (hstart : c.startBlock = .ok (.int a))
    (hend : c.endBlock = .int b) : 1 ≤ a ∧ a ≤ b := by
  have hb : 1 ≤ b := whole_not_lt_one (hend ▸ h.endBlock)
  have hrange := h.blockRange
  unfold startBlock at hstart
  rw [hend] at hstart
  cases hr : c.blockRange with
  | whole q =>
    rw [hr] at hrange hstart
    have hq : 1 ≤ q.toInt := whole_not_lt_one hrange
    have hsum : ((Number.int b).sub? (.whole q)).bind (·.add? (.int 1)) = some (.int (b - q.toInt + 1)) := rfl
    rw [hsum] at hstart
    dsimp only at hstart
    rw [Number.lt_int] at hstart
    split at hstart
    · rename_i hlt
      cases hstart
      have hlt : 1 < b - q.toInt + 1 := by simpa using hlt
      omega
    · cases hstart
      omega
  | real x =>
    -- Whatever is counted from a number that is not whole is not whole either.
    split at hstart
    · rename_i n hn
      split at hstart
      · obtain ⟨d, hd, hn⟩ := Option.bind_eq_some_iff.mp hn
        obtain ⟨y, rfl⟩ := Number.sub?_real (hr ▸ hd)
        obtain ⟨z, rfl⟩ := Number.add?_real hn
        cases hstart
      · cases hstart
        omega
    · cases hstart

end Config
end AssertionReplay
