/-
What a run accounts for.

A run judges its records one after another, each of them once, and counts the
verdicts (`replayAll_judges`). So what it returns counts every record, in the
category of its verdict, and lists the violations in the order of the replay
(`run_accounts`); and the same holds after each single record. Records that
the run fetches itself are replayed in chain order.
-/
import AssertionReplay.Proofs.Containment
import AssertionReplay.Proofs.Provenance
import AssertionReplay.Proofs.Tally

namespace AssertionReplay

open Text

/-! ## The report -/

namespace Tally

variable {t : Tally} {o : Outside} {j j' : Journal}

theorem forEach_log (level : Text → Level) (lines : List Text) (o : Outside) (j : Journal) :
    Act.forEach lines (fun line => Act.log (level line) line) o j =
      (.ok (), j ++ lines.map fun line => .log ⟨level line, line, none⟩) := by
  induction lines generalizing j with
  | nil => exact congrArg (Prod.mk _) (List.append_nil j).symm
  | cons line lines ih =>
    refine (ih (j ++ [.log ⟨level line, line, none⟩])).trans ?_
    rw [List.append_assoc]
    rfl

theorem length_errors (level : Text → Level) (lines : List Text) :
    (Journal.logsFrom .error (lines.map fun line => .log ⟨level line, line, none⟩)).length =
      lines.countP (level · == .error) := by
  have hlogs : Journal.logs (lines.map fun line => .log ⟨level line, line, none⟩) =
      lines.map fun line => ⟨level line, line, none⟩ := by
    rw [Journal.logs, List.filterMap_map]
    exact congrFun List.filterMap_eq_map lines
  have herror : ∀ l : Level, decide (Level.error.rank ≤ l.rank) = (l == .error) := by
    intro l
    cases l <;> decide
  rw [Journal.logsFrom, hlogs, List.filter_map, List.length_map, ← List.countP_eq_length_filter]
  refine List.countP_congr fun line _ => ?_
  simp only [Function.comp_apply, herror]

/-- **The report is logged** line by line, those about violations as errors. -/
theorem logSummary_errors (h : t.logSummary o j = (.ok (), j')) (o' : Outside) (past : Journal) :
    ∃ written : Journal, t.logSummary o' past = (.ok (), past ++ written) ∧
      (written.logsFrom .error).length = if 0 < t.assertionFailures then 1 + t.violations.length else 0 := by
  obtain ⟨lines, hlines, -⟩ := Act.lift_bind_apply_eq_ok_iff.mp h
  refine ⟨lines.map fun line => .log ⟨lineLevel line, line, none⟩, ?_, ?_⟩
  · exact Act.lift_bind_apply_eq_ok_iff.mpr ⟨lines, hlines, forEach_log _ _ _ _⟩
  · rw [length_errors, errors_summary hlines]

end Tally

namespace Backtest

open Act

variable {o : Outside} {c : Config} {classify : Classifier} {j j' j₁ j₂ : Journal} {t tally : Tally}
  {total position : Nat} {r : Record} {rs : List Record} {judged : List (Record × Verdict)}

/-! ## The replays -/

/-- The records were replayed one after another and got these verdicts, each followed by one line of
the log. -/
inductive Replayed (o : Outside) (c : Config) (classify : Classifier) :
    Journal → List (Record × Verdict) → Journal → Prop
  | done {j : Journal} : Replayed o c classify j [] j
  | next {j j₁ j₂ : Journal} {r : Record} {v : Verdict} {entry : LogEntry} {judged : List (Record × Verdict)}
    (hv : Replay.validate c classify r o j = (.ok v, j₁))
    (hrest : Replayed o c classify (j₁ ++ [.log entry]) judged j₂) : Replayed o c classify j ((r, v) :: judged) j₂

/-- The line about a verdict. -/
def progressEntry (position total : Nat) (v : Verdict) (line : Text) : LogEntry :=
  ⟨if v.isViolation then .error else .info, "(" ++ decimal position ++ "/" ++ decimal total ++ ") " ++ line, none⟩

/-- **One record.** -/
theorem replayAll_cons_eq_ok_iff :
    replayAll c classify total position tally (r :: rs) o j = (.ok t, j') ↔
      ∃ v j₁ line, Replay.validate c classify r o j = (.ok v, j₁) ∧ v.describe r = .ok line ∧
        replayAll c classify total (position + 1) (tally.add r v) rs o
          (j₁ ++ [.log (progressEntry position total v line)]) = (.ok t, j') := by
  rw [replayAll, bind_apply_eq_ok_iff]
  simp only [lift_bind_apply_eq_ok_iff]
  constructor
  · intro h
    obtain ⟨v, j₁, hv, line, hline, hrest⟩ := h
    exact ⟨v, j₁, line, hv, hline, hrest⟩
  · intro h
    obtain ⟨v, j₁, line, hv, hline, hrest⟩ := h
    exact ⟨v, j₁, hv, line, hline, hrest⟩

/-- **All records.** Each is judged once, in order, and the tally counts the verdicts; so it does after
any number of them. -/
theorem replayAll_judges (h : replayAll c classify total position tally rs o j = (.ok t, j')) :
    ∃ judged, judged.map (·.1) = rs ∧ Replayed o c classify j judged j' ∧ t = tally.addAll judged ∧
      ∀ k, ∃ past, replayAll c classify total position tally (rs.take k) o j =
        (.ok (tally.addAll (judged.take k)), past) := by
  induction rs generalizing position tally j with
  | nil =>
    cases h
    exact ⟨[], rfl, .done, rfl, fun k => ⟨_, by rw [List.take_nil, List.take_nil]; rfl⟩⟩
  | cons r rs ih =>
    obtain ⟨v, j₁, line, hv, hline, hrest⟩ := replayAll_cons_eq_ok_iff.mp h
    obtain ⟨judged, hrecords, hreplayed, ht, hfirst⟩ := ih hrest
    refine ⟨(r, v) :: judged, by rw [List.map_cons, hrecords], .next hv hreplayed, ht, fun k => ?_⟩
    cases k with
    | zero => exact ⟨j, rfl⟩
    | succ k =>
      obtain ⟨past, hpast⟩ := hfirst k
      exact ⟨past, replayAll_cons_eq_ok_iff.mpr ⟨v, j₁, line, hv, hline, hpast⟩⟩

/-! ## The records -/

/-- Records in chain order: none is of a later place than the next. -/
def Ordered (rs : List Record) : Prop :=
  rs.Pairwise fun a b =>
    a.block.toInt < b.block.toInt ∨ a.block.toInt = b.block.toInt ∧ a.index.toInt ≤ b.index.toInt

theorem ordered_mergedRecords (blocks : List BlockResult) : Ordered (Fetcher.mergedRecords blocks) := by
  refine (List.pairwise_mergeSort Record.atOrBefore_trans Record.atOrBefore_total _).imp ?_
  intro a b h
  simpa [Record.atOrBefore] using h

theorem fetchRecords_ordered (o : Outside) (c : Config) : Yields o (fetchRecords c) Ordered := by
  unfold fetchRecords fetchRecordsFrom
  refine .bind .any fun f _ => .bind .any fun start _ => ?_
  refine .bind (Fetcher.fetch_yields (P := fun _ _ => True) f o _ _ fun _ _ _ => ?_) fun fetched h => .pure ?_
  · exact Yields.returned.imp fun _ _ _ _ => trivial
  · rw [h.1]
    exact ordered_mergedRecords fetched.blocks

/-! ## A run -/

/-- The records that are given, or those that are fetched if none are. -/
def recordsOf (c : Config) : Option (List Record) → Act (List Record)
  | some rs => Act.pure rs
  | none => fetchRecords c

theorem run_eq (c : Config) (classify : Classifier) (records? : Option (List Record)) :
    run c classify records? = (do
      let start ← c.startBlock
      Act.logWritten .info none do
        return "Backtesting " ++ c.target ++ " over blocks " ++
          (← Field.numeral start.toJson) ++ " to " ++ (← Field.numeral c.endBlock.toJson)
      let records ← recordsOf c records?
      let tally ← replayAll c classify records.length 1 { total := records.length } records
      tally.logSummary
      return tally) := by
  cases records? <;> rfl

theorem run_parts {records? : Option (List Record)} (h : run c classify records? o j = (.ok t, j')) :
    ∃ rs j₀ j₁ j₂, recordsOf c records? o j₀ = (.ok rs, j₁) ∧
      replayAll c classify rs.length 1 { total := rs.length } rs o j₁ = (.ok t, j₂) ∧
      t.logSummary o j₂ = (.ok (), j') := by
  rw [run_eq] at h
  obtain ⟨start, -, h⟩ := lift_bind_apply_eq_ok_iff.mp h
  obtain ⟨_, j₀, -, h⟩ := bind_apply_eq_ok_iff.mp h
  obtain ⟨rs, j₁, hrecords, h⟩ := bind_apply_eq_ok_iff.mp h
  obtain ⟨tally, j₂, hreplay, h⟩ := bind_apply_eq_ok_iff.mp h
  obtain ⟨_, j₃, hlog, h⟩ := bind_apply_eq_ok_iff.mp h
  cases h
  exact ⟨rs, j₀, j₁, j₂, hrecords, hreplay, hlog⟩

/-- The tally counts the judgements: each in its category, and the violations by hash, in order. -/
structure Accounts (t : Tally) (judged : List (Record × Verdict)) : Prop where
  processed : t.processed = judged.length
  counter : ∀ outcome, t.counter outcome = judged.countP (·.2.outcome == outcome)
  consistent : t.isConsistent = true
  violations : t.violations = (judged.filter (·.2.outcome == .assertionFailed)).map (·.1.hash)
  length_violations : (t.violations.length : Int) = t.assertionFailures

theorem accounts_addAll (total : Int) (judged : List (Record × Verdict)) :
    Accounts (Tally.addAll { total } judged) judged := by
  have h := Tally.counted_addAll { total } judged
  refine ⟨?_, fun outcome => ?_, h.consistent rfl, h.violations, h.length_violations rfl⟩
  · rw [h.processed, Int.zero_add]
  · rw [h.counter]
    cases outcome <;> exact Int.zero_add _

/-- **What a run accounts for.** Every record is judged once, in the order of the replay, which for records
that were fetched is chain order; the tally that is returned counts each in the category of its verdict
and lists the violations, and so does the tally after any number of records. The report has an error
line about the violations, if there are any, and one for each. A verdict more leaves a tally consistent,
and the order of the verdicts does not show in the counters. -/
theorem run_accounts (c : Config) (classify : Classifier) (records? : Option (List Record)) {o : Outside}
    {j j' : Journal} {t : Tally} (hrun : run c classify records? o j = (.ok t, j')) :
    (∃ rs judged j₁ j₂,
      (∀ given, records? = some given → rs = given) ∧
      (records? = none → Ordered rs ∧ ∃ j₀, fetchRecords c o j₀ = (.ok rs, j₁)) ∧
      judged.map (·.1) = rs ∧ Replayed o c classify j₁ judged j₂ ∧
      t.total = rs.length ∧ t.processed = rs.length ∧ Accounts t judged ∧
      (∀ k, ∃ after past,
        replayAll c classify rs.length 1 { total := rs.length } (rs.take k) o j₁ = (.ok after, past) ∧
          after.total = rs.length ∧ Accounts after (judged.take k)) ∧
      t.logSummary o j₂ = (.ok (), j')) ∧
    (∀ o past, ∃ written : Journal, t.logSummary o past = (.ok (), past ++ written) ∧
      ((written.logsFrom .error).length : Int) = if 0 < t.assertionFailures then 1 + t.assertionFailures else 0) ∧
    (∀ (t : Tally) r v, t.isConsistent = true → (t.add r v).isConsistent = true) ∧
    ∀ (t : Tally) (judged judged' : List (Record × Verdict)), judged.Perm judged' →
      (t.addAll judged).total = (t.addAll judged').total ∧
      (t.addAll judged).processed = (t.addAll judged').processed ∧
      (t.addAll judged).counter = (t.addAll judged').counter ∧
      (t.addAll judged).violations.Perm (t.addAll judged').violations := by
  obtain ⟨rs, j₀, j₁, j₂, hrecords, hreplay, hlog⟩ := run_parts hrun
  obtain ⟨judged, hjudged, hreplayed, ht, hfirst⟩ := replayAll_judges hreplay
  have haccounts : Accounts t judged := ht ▸ accounts_addAll rs.length judged
  have hlength : judged.length = rs.length := by rw [← hjudged, List.length_map]
  refine ⟨⟨rs, judged, j₁, j₂, ?_, ?_, hjudged, hreplayed, ?_, ?_, haccounts, fun k => ?_, hlog⟩, ?_, ?_, ?_⟩
  · intro given hgiven
    rw [hgiven] at hrecords
    cases hrecords
    rfl
  · intro hnone
    rw [hnone] at hrecords
    exact ⟨(fetchRecords_ordered o c).ok hrecords, j₀, hrecords⟩
  · rw [ht, (Tally.counted_addAll _ judged).total]
  · rw [haccounts.processed, hlength]
  · obtain ⟨past, hpast⟩ := hfirst k
    exact ⟨_, past, hpast, (Tally.counted_addAll _ _).total, accounts_addAll _ _⟩
  · intro o past
    obtain ⟨written, hwritten, herrors⟩ := Tally.logSummary_errors hlog o past
    refine ⟨written, hwritten, ?_⟩
    rw [herrors, ← haccounts.length_violations]
    split <;> simp
  · exact fun t r v h => Tally.isConsistent_add h r v
  · intro t judged judged' hperm
    exact Tally.counted_of_perm hperm (Tally.counted_addAll t judged) (Tally.counted_addAll t judged')

/-- Answers every call; what it executes fails if it has data. -/
def pickyHost : Outside :=
  { Replay.willingHost with
    host := fun past call =>
      match call with
      | .execute e => .ok (⟨e.data.isEmpty, []⟩ : CallResult)
      | call => Replay.willingHost.host past call }

def mixedRecords : List Record :=
  [Replay.plainRecord, { Replay.plainRecord with hash := "0x02", data := [1], index := .int 1 }]

def mixedTally : Tally where
  total := 2
  processed := 2
  successful := 1
  assertionFailures := 1
  violations := ["0x02"]

/-- The first record succeeds, and the second one violates the assertion. -/
theorem run_accounts_mixed :
    ∃ j', run Replay.noArguments .standard (some mixedRecords) pickyHost [] = (.ok mixedTally, j') ∧
      (∃ judged j₁ j₂, judged.map (·.1) = mixedRecords ∧
        Replayed pickyHost Replay.noArguments .standard j₁ judged j₂ ∧ Accounts mixedTally judged) ∧
      ∀ o past, ∃ written : Journal, mixedTally.logSummary o past = (.ok (), past ++ written) ∧
        ((written.logsFrom .error).length : Int) = 2 := by
  have hrun : (run Replay.noArguments .standard (some mixedRecords) pickyHost []).1 = .ok mixedTally := rfl
  refine ⟨_, Prod.ext hrun rfl, ?_⟩
  obtain ⟨⟨rs, judged, j₁, j₂, hgiven, -, hjudged, hreplayed, -, -, haccounts, -, -⟩, hreport, -⟩ :=
    run_accounts Replay.noArguments .standard (some mixedRecords) (Prod.ext hrun rfl)
  exact ⟨⟨judged, j₁, j₂, hjudged.trans (hgiven _ rfl), hreplayed, haccounts⟩, hreport⟩

end Backtest
end AssertionReplay
