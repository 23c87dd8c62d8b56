/-
Faults of reading parameters that name none of them.

Parameters that cannot be used are refused with a fault that tells which of
them is wrong. Two kinds of value are not refused so. A target that is given
and no text fails as such, since only text that is no address is expected
there; and where a message is to show a number that has no numeral, showing it
fails. `Given.Escapes` says after which checks each of them comes, and reading
fails in no other way without naming a parameter (`read_escapes_iff`).
-/
import AssertionReplay.Proofs.AcceptedConfig

namespace AssertionReplay

open Text

theorem bind_eq_error_iff {x : Except ε α} {f : α → Except ε β} {e : ε} :
    (x >>= f) = .error e ↔ x = .error e ∨ ∃ a, x = .ok a ∧ f a = .error e := by
  cases x <;> simp [bind, Except.bind]

/-- The fault names a parameter. -/
def Fault.NamesParameter (e : Fault) : Prop := ∃ cause, e = .config cause

namespace Address

/-- What is given and no address fails by its kind: text that cannot be read, or a value that has no such form. -/
theorem parse_eq_error_iff {v : Json} {e : Fault} : parse v = .error e ↔ v.isGiven = true ∧
    ((∃ t, v = .str t ∧ ofText? keccakCase t = none ∧ e = .value .unreadable) ∨
      (∀ t, v ≠ .str t) ∧ e = .noSuchPart) := by
  unfold parse parseWith
  cases hgiven : v.isGiven
  · simp
  cases v with
  | str t => cases h : ofText? keccakCase t <;> simp [h, eq_comm]
  | _ => simp [eq_comm]

end Address

namespace Config

variable {env : String → Option Text} {raw : OrderedMap Json} {g : Given} {c : Config} {e : Fault}

/-! ## What a single check fails with -/

theorem namesParameter_of_refuseIf {p : Bool} {cause : ConfigFault}
    (h : refuseIf p (.config cause) = .error e) : e.NamesParameter := by
  cases p <;> cases h
  exact ⟨cause, rfl⟩

theorem namesParameter_of_liftConfig {x : Except ConfigFault α} (h : liftConfig x = .error e) : e.NamesParameter := by
  cases x <;> cases h
  exact ⟨_, rfl⟩

theorem namesParameter_of_numberField {v : Json} (h : numberField v = .error e) : e.NamesParameter := by
  unfold numberField at h
  split at h <;> cases h
  exact ⟨_, rfl⟩

theorem refusal_cases (shown : Json) (cause : ConfigFault) :
    (refusal shown cause).NamesParameter ∨ shown.isShowable = false ∧ refusal shown cause = Field.unreadable := by
  unfold refusal
  cases shown.isShowable
  · exact .inr ⟨rfl, rfl⟩
  · exact .inl ⟨cause, rfl⟩

theorem refusal_unshown {shown : Json} {cause : ConfigFault} (h : shown.isShowable = false) :
    refusal shown cause = Field.unreadable := by
  simp [refusal, h]

theorem countField_fault {v : Json} {tooSmall : Number → Fault} (h : countField v tooSmall = .error e) :
    e.NamesParameter ∨ ∃ n, v.number? = some n ∧ n.lt (.int 1) = true ∧ e = tooSmall n := by
  rcases bind_eq_error_iff.mp h with h | ⟨n, hn, h⟩
  · exact .inl (namesParameter_of_numberField h)
  rcases bind_eq_error_iff.mp h with h | ⟨_, -, h⟩
  · cases hlow : n.lt (.int 1) <;> rw [hlow] at h <;> cases h
    exact .inr ⟨n, numberField_eq_ok_iff.mp hn, hlow, rfl⟩
  · cases h

theorem countField_low {v : Json} {tooSmall : Number → Fault} {n : Number} (hn : v.number? = some n)
    (hlow : n.lt (.int 1) = true) : countField v tooSmall = .error (tooSmall n) := by
  simp [countField, numberField, hn, hlow, refuseIf, bind, Except.bind]

theorem readTarget_fault {v : Json} :
    (readTarget v = .error e ∧ ¬ e.NamesParameter) ↔
      v.isGiven = true ∧ (∀ t, v ≠ .str t) ∧ e = .noSuchPart := by
  constructor
  · intro h
    obtain ⟨h, hnamed⟩ := h
    unfold readTarget at h
    split at h
    · cases h
      exact absurd ⟨_, rfl⟩ hnamed
    · rename_i hnot hparse
      cases h
      rcases Address.parse_eq_error_iff.mp hparse with ⟨hgiven, ⟨t, -, -, rfl⟩ | ⟨htext, rfl⟩⟩
      · exact absurd rfl (hnot _)
      · exact ⟨hgiven, htext, rfl⟩
    · split at h <;> cases h
      exact absurd ⟨_, rfl⟩ hnamed
  · intro h
    obtain ⟨hgiven, htext, rfl⟩ := h
    refine ⟨?_, by simp [Fault.NamesParameter]⟩
    rw [readTarget, Address.parse_eq_error_iff.mpr ⟨hgiven, .inr ⟨htext, rfl⟩⟩]

/-! ## All checks -/

/-- Checking the parameters fails so, and names none of them: a version that is not the current one, or a bound
that is too low, has no numeral to be shown, or the target is given and no text. Every earlier check is passed. -/
inductive Given.Escapes (g : Given) : Fault → Prop
  | version (hold : g.isCurrent = false) (hshown : g.version.isShowable = false) : g.Escapes Field.unreadable
  | target (hcurrent : g.isCurrent = true) (hurl : g.url.isGiven = true) (hgiven : g.target.isGiven = true)
      (htext : ∀ t, g.target ≠ .str t) : g.Escapes .noSuchPart
  | endBlock {target : String} {n : Number} (hcurrent : g.isCurrent = true) (hurl : g.url.isGiven = true)
      (htarget : readTarget g.target = .ok target) (hn : g.endBlock.number? = some n) (hlow : n.lt (.int 1) = true)
      (hshown : n.toJson.isShowable = false) : g.Escapes Field.unreadable
  | blockRange {target : String} {last n : Number} (hcurrent : g.isCurrent = true) (hurl : g.url.isGiven = true)
      (htarget : readTarget g.target = .ok target) (hlast : g.endBlock.number? = some last)
      (hge : last.lt (.int 1) = false) (hn : g.blockRange.number? = some n) (hlow : n.lt (.int 1) = true)
      (hshown : n.toJson.isShowable = false) : g.Escapes Field.unreadable

theorem Given.Escapes.not_named (h : g.Escapes e) : ¬ e.NamesParameter := by
  cases h <;> simp [Fault.NamesParameter, Field.unreadable]

/-- Past the two bounds every fault names a parameter. -/
theorem Given.escapes_of_check (h : g.check = .error e) (hnamed : ¬ e.NamesParameter) : g.Escapes e := by
  unfold check at h
  rcases bind_eq_error_iff.mp h with h | ⟨_, hcurrent, h⟩
  · cases hold : g.isCurrent <;> rw [hold] at h <;> cases h
    rcases refusal_cases g.version (.unsupportedVersion g.version) with hnames | ⟨hshown, heq⟩
    · exact absurd hnames hnamed
    · exact heq ▸ .version hold hshown
  have hcurrent : g.isCurrent = true := by simpa using refuseIf_eq_ok_iff.mp hcurrent
  rcases bind_eq_error_iff.mp h with h | ⟨_, hurl, h⟩
  · exact absurd (namesParameter_of_refuseIf h) hnamed
  have hurl : g.url.isGiven = true := by simpa using refuseIf_eq_ok_iff.mp hurl
  rcases bind_eq_error_iff.mp h with h | ⟨target, htarget, h⟩
  · obtain ⟨hgiven, htext, rfl⟩ := readTarget_fault.mp ⟨h, hnamed⟩
    exact .target hcurrent hurl hgiven htext
  rcases bind_eq_error_iff.mp h with h | ⟨last, hlast, h⟩
  · obtain ⟨n, hn, hlow, rfl⟩ := (countField_fault h).resolve_left hnamed
    obtain ⟨hshown, heq⟩ := (refusal_cases n.toJson (.endBlock n)).resolve_left hnamed
    exact heq ▸ .endBlock hcurrent hurl htarget hn hlow hshown
  obtain ⟨hlast, hge⟩ := countField_eq_ok_iff.mp hlast
  rcases bind_eq_error_iff.mp h with h | ⟨count, -, h⟩
  · obtain ⟨n, hn, hlow, rfl⟩ := (countField_fault h).resolve_left hnamed
    obtain ⟨hshown, heq⟩ := (refusal_cases n.toJson (.blockRange n)).resolve_left hnamed
    exact heq ▸ .blockRange hcurrent hurl htarget hlast hge hn hlow hshown
  exfalso
  apply hnamed
  rcases bind_eq_error_iff.mp h with h | ⟨_, -, h⟩
  · exact namesParameter_of_refuseIf h
  rcases bind_eq_error_iff.mp h with h | ⟨_, -, h⟩
  · exact namesParameter_of_liftConfig h
  rcases bind_eq_error_iff.mp h with h | ⟨_, -, h⟩
  · obtain h | ⟨n, -, -, rfl⟩ := countField_fault h
    · exact h
    · exact ⟨_, rfl⟩
  rcases bind_eq_error_iff.mp h with h | ⟨_, -, h⟩
  · obtain h | ⟨n, -, -, rfl⟩ := countField_fault h
    · exact h
    · exact ⟨_, rfl⟩
  rcases bind_eq_error_iff.mp h with h | ⟨_, -, h⟩
  · exact namesParameter_of_numberField h
  rcases bind_eq_error_iff.mp h with h | ⟨_, -, h⟩
  · exact namesParameter_of_refuseIf h
  · cases h

theorem Given.Escapes.check (h : g.Escapes e) : g.check = .error e := by
  unfold Given.check
  have hpast : g.isCurrent = true → g.url.isGiven = true → ∀ rest : Except Fault Config, (do
      refuseIf (!g.isCurrent) (refusal g.version (.unsupportedVersion g.version))
      refuseIf (!g.url.isGiven) (.config .missingUrl)
      rest) = rest := by
    intro hcurrent hurl rest
    rw [hcurrent, hurl]
    rfl
  cases h with
  | version hold hshown =>
    rw [hold, refusal_unshown hshown]
    rfl
  | target hcurrent hurl hgiven htext =>
    rw [hpast hcurrent hurl, (readTarget_fault.mpr ⟨hgiven, htext, rfl⟩).1]
    rfl
  | endBlock hcurrent hurl htarget hn hlow hshown =>
    rw [hpast hcurrent hurl, htarget, countField_low hn hlow, refusal_unshown hshown]
    rfl
  | blockRange hcurrent hurl htarget hlast hge hn hlow hshown =>
    rw [hpast hcurrent hurl, htarget, countField_eq_ok_iff.mpr ⟨hlast, hge⟩, countField_low hn hlow,
      refusal_unshown hshown]
    rfl

/-- **Reading parameters names what is wrong with them**, whatever the fields and the environment hold, unless
the target is given and no text, or a message is to show a number that has no numeral. -/
theorem read_escapes_iff (env : String → Option Text) (raw : OrderedMap Json) (e : Fault) :
    (read env raw = .error e ∧ ¬ e.NamesParameter) ↔ ∃ g, fill env raw = .ok g ∧ g.Escapes e := by
  constructor
  · intro h
    obtain ⟨h, hnamed⟩ := h
    rcases bind_eq_error_iff.mp h with h | ⟨g, hfill, h⟩
    · exact absurd (namesParameter_of_liftConfig h) hnamed
    · exact ⟨g, liftConfig_eq_ok_iff.mp hfill, Given.escapes_of_check h hnamed⟩
  · intro h
    obtain ⟨g, hfill, hescapes⟩ := h
    exact ⟨bind_eq_error_iff.mpr (.inr ⟨g, liftConfig_eq_ok_iff.mpr hfill, hescapes.check⟩), hescapes.not_named⟩

/-- Parameters with a number for the target. -/
def numericTarget : OrderedMap Json := [("target_contract", .int 5), ("end_block", .int 110),
  ("block_range", .int 11), ("assertion_bytecode", .str "0x6080"), ("trigger_selector", .str "0xa9059cbb"),
  ("rpc_url", .str "http://node")]

/-- A number for the target is neither accepted nor named. -/
theorem read_numericTarget : ¬ ((∃ c, read (fun _ => none) numericTarget = .ok c) ∨
    ∃ cause, read (fun _ => none) numericTarget = .error (.config cause)) := by
  have hnames : unknownNames numericTarget = [] := by
    rw [unknownNames, show numericTarget.names.filter (fun n => !knownFields.contains n) = [] from rfl]
    exact List.mergeSort_nil
  have hread : read (fun _ => none) numericTarget = .error .noSuchPart := by
    rw [read, fill, hnames]
    rfl
  rw [hread]
  simp

end Config
end AssertionReplay
