/-
Accepted parameters fetch the blocks that they ask for.

Parameters are checked when they are read, their target and sizes again when
a fetcher is made of them, and their range once more when it fetches. What the
first check accepts the other two accept, whichever client the fetcher has
(`fetcherOf_checked`): the target is read as it is, and its number is not zero.
With whole numbers the range starts at block one or later and has as many
blocks as were asked for, or all up to the last if there are no more
(`startBlock_of_whole`), and these are the blocks of every fetch that returns
(`intended_blocks_fetched`).
-/
import AssertionReplay.Proofs.AcceptedConfig
import AssertionReplay.Proofs.Pipelines
import AssertionReplay.Proofs.Placement

namespace AssertionReplay

open Text

/-! ## The number of an address -/

namespace Text

theorem ofDigits_eq_zero_iff {base : Nat} (hbase : 0 < base) {ds : List Nat} :
    ofDigits base ds = 0 ↔ ∀ d ∈ ds, d = 0 := by
  have hfold : ∀ (ds : List Nat) (n : Nat),
      ds.foldl (fun n d => n * base + d) n = 0 ↔ n = 0 ∧ ∀ d ∈ ds, d = 0 := by
    intro ds
    induction ds with
    | nil => simp
    | cons d ds ih =>
      intro n
      rw [List.foldl_cons, ih, List.forall_mem_cons, Nat.add_eq_zero_iff, Nat.mul_eq_zero]
      have hne : base ≠ 0 := by omega
      simp only [hne, or_false, and_assoc]
  simp [ofDigits, hfold]

end Text

namespace Address

/-- The value of each hexadecimal digit, as an evaluated table over ASCII. -/
theorem hexDigit_value_table : ∀ n < 128, isHexDigit (Char.ofNat n) = true →
    ∃ d < 16, digitIn? 16 (Char.ofNat n) = some d ∧ isNumeralBlank (Char.ofNat n) = false ∧
      (d = 0 → Char.ofNat n = '0') := by decide +kernel

theorem hexDigit_value {c : Char} (h : isHexDigit c = true) :
    ∃ d, digitIn? 16 c = some d ∧ isNumeralBlank c = false ∧ (d = 0 → c = '0') := by
  have htable := hexDigit_value_table c.toNat (toNat_lt_of_isHexDigit h)
  rw [Char.ofNat_toNat] at htable
  obtain ⟨d, -, hd⟩ := htable h
  exact ⟨d, hd⟩

theorem exists_hexValues {cs : List Char} (h : ∀ c ∈ cs, isHexDigit c = true) : ∃ ds, List.Forall₂
    (fun c d => digitIn? 16 c = some d ∧ isNumeralBlank c = false ∧ (d = 0 → c = '0')) cs ds := by
  induction cs with
  | nil => exact ⟨[], .nil⟩
  | cons c cs ih =>
    rw [List.forall_mem_cons] at h
    obtain ⟨d, hd⟩ := hexDigit_value h.1
    obtain ⟨ds, hds⟩ := ih h.2
    exact ⟨d :: ds, .cons hd hds⟩

/-- An address that is read spells a number, and zero only if it is the zero address. -/
theorem number_of_parse {v : Json} {a : String} (h : parse v = .ok a) :
    ∃ n, readInt? 16 a = some n ∧ (n = 0 → a = zero) := by
  obtain ⟨ds, hlength, hds, rfl⟩ := exists_of_parse h
  generalize hcs : applyCase (ds.map lowerDigit) (keccakCase (ds.map lowerDigit)) = cs
  have hcased : ∀ c ∈ cs, isHexDigit c = true := hcs ▸ (applyCase_facts hds _).1
  have hcount : cs.length = 40 := by rw [← hcs, length_applyCase, List.length_map, hlength]
  have htext : checksummed keccakCase ds = String.ofList ('0' :: 'x' :: cs) := by rw [← hcs]; rfl
  obtain ⟨values, hvalues⟩ := exists_hexValues hcased
  have hne : cs ≠ [] := by
    intro hnil
    rw [hnil] at hcount
    cases hcount
  refine ⟨(ofDigits 16 values : Int), ?_, fun hzero => ?_⟩
  · rw [htext, ofString_ofList, readInt?_marked (.inl rfl) hne (hvalues.imp fun _ _ hd => ⟨hd.1, hd.2.1⟩)]
  · have hzeros := (ofDigits_eq_zero_iff (by decide)).mp (Int.natCast_eq_zero.mp hzero)
    have hall : ∀ c ∈ cs, c = '0' := by
      intro c hc
      obtain ⟨d, hd, -, -, hchar⟩ := exists_of_forall₂ hvalues hc
      exact hchar (hzeros d hd)
    rw [htext, List.eq_replicate_of_mem hall, hcount]
    rfl

end Address

/-! ## Whole numbers of any kind -/

namespace Fetcher

/-- A fetcher is made, for every client, of what has passed the same checks before. -/
theorem create_of_numbers (client : Client) {target : Json} {address : String} {size conc : Number}
    (htarget : Address.parse target = .ok address) (hsize : size.lt (.int 1) = false)
    (hconc : conc.lt (.int 1) = false) (detect fallback bar : Bool) (capability? : Option Capability) :
    create client target size.toJson conc.toJson detect fallback capability? bar = .ok {
      client, target := address, batchSize := size, concurrency := conc, receiptFallback := fallback
      showProgress := bar, chosen? := if detect then capability? else some .directCallsOnly } :=
  create_eq_ok_iff_exists.mpr
    ⟨size, conc, size.number?_toJson, hsize, conc.number?_toJson, hconc, htarget, rfl⟩

variable {f : Fetcher}

theorem numeral_whole (q : Quantity) : Field.numeral (Number.whole q).toJson = Field.numeral (.int q.toInt) := by
  cases q <;> rfl

theorem whole_whole (q : Quantity) : Field.whole (Number.whole q).toJson = Field.whole (.int q.toInt) := by
  cases q <;> rfl

theorem rangeOf_last_whole (a : Int) (q : Quantity) : rangeOf (.int a) (Number.whole q).toJson =
    (checkRange (.int a) (.int q.toInt)).map fun _ => (.int a, .whole q) := by
  unfold rangeOf
  rw [Number.number?_toJson]
  rfl

/-- A truth value that bounds a range stands for its number. -/
theorem fetch_last_whole (f : Fetcher) (a : Int) (q : Quantity) :
    f.fetch (.int a) (Number.whole q).toJson = f.fetch (.int a) (.int q.toInt) := by
  have hwith : ∀ cap started, f.fetchWith cap started (.int a) (.whole q) =
      f.fetchWith cap started (.int a) (.int q.toInt) := by
    intro cap started
    have hline : f.rangeLine (.int a) (.whole q) = f.rangeLine (.int a) (.int q.toInt) := by
      unfold rangeLine
      rw [numeral_whole]
      rfl
    have hcheck : checkWhole [.int a, .whole q, f.batchSize, f.concurrency] =
        checkWhole [.int a, .int q.toInt, f.batchSize, f.concurrency] := by
      simp only [checkWhole, whole_whole]
      rfl
    unfold fetchWith
    rw [hline, hcheck]
    rfl
  have hrange' : rangeOf (.int a) (.int q.toInt) =
      (checkRange (.int a) (.int q.toInt)).map fun _ => (.int a, .int q.toInt) := rfl
  unfold fetch run
  rw [rangeOf_last_whole, hrange']
  cases checkRange (.int a) (.int q.toInt) with
  | error e => rfl
  | ok _ => simp only [Except.map, hwith]

end Fetcher

namespace Config

variable {c : Config} {g : Given}

/-- Where the range starts: it has as many blocks as were asked for, but none before block one. -/
theorem startBlock_of_whole {last count : Quantity} (hlast : c.endBlock = .whole last)
    (hcount : c.blockRange = .whole count) :
    c.startBlock = .ok (.int (max 1 (last.toInt - count.toInt + 1))) := by
  have hfirst : (c.endBlock.sub? c.blockRange).bind (·.add? (.int 1)) =
      some (.int (last.toInt - count.toInt + 1)) := by
    rw [hlast, hcount]
    rfl
  unfold startBlock
  rw [hfirst]
  dsimp only
  simp only [Number.lt_int, decide_eq_true_eq]
  split
  · rw [Int.max_eq_right (by omega)]
  · rw [Int.max_eq_left (by omega)]

theorem Given.Passes.target_number (h : g.Passes c) : ∃ n, readInt? 16 c.target = some n ∧ n ≠ 0 := by
  obtain ⟨n, hn, hzero⟩ := Address.number_of_parse h.target
  exact ⟨n, hn, fun h0 => h.target_ne_zero (hzero h0)⟩

end Config

namespace Backtest

open Act

variable {c : Config} {g : Config.Given}

/-- **A fetcher is made for every client** of parameters that were accepted, of whatever kind their numbers
are. -/
theorem fetcherOf_checked (h : c.Checked) (client : Client) : fetcherOf client c = .ok {
    client, target := c.target, batchSize := c.batchSize, concurrency := c.concurrency, receiptFallback := false
    showProgress := false, chosen? := if c.detectInner.isGiven then none else some .directCallsOnly } :=
  Fetcher.create_of_numbers client h.parse_target h.batchSize h.concurrency _ _ _ _

/-- **The blocks that were asked for are fetched.** Let parameters be accepted whose last block, number of
blocks and batch size are whole numbers. The range is of blocks from one on, as many as were asked for or all up
to the last one; the target is read as it is, and its number is not zero; for every client a fetcher is made and
its range accepted, so that fetching the records is fetching this range; and whatever the endpoint answers, a
fetch that returns has one result for each block of the range, in its order. -/
theorem intended_blocks_fetched (h : g.check = .ok c) {last count size : Quantity}
    (hlast : c.endBlock = .whole last) (hcount : c.blockRange = .whole count) (hsize : c.batchSize = .whole size) :
    ∃ start : Int, c.startBlock = .ok (.int start) ∧ 1 ≤ start ∧ start ≤ last.toInt ∧
      last.toInt - start + 1 = min count.toInt last.toInt ∧
      Address.parse (.str c.target) = .ok c.target ∧ (∃ n, readInt? 16 c.target = some n ∧ n ≠ 0) ∧
      ∀ client, ∃ f : Fetcher, fetcherOf client c = .ok f ∧ f.client = client ∧ f.target = c.target ∧
        Fetcher.rangeOf (.int start) c.endBlock.toJson = .ok (.int start, c.endBlock) ∧
        fetchRecordsFrom client c = (do return (← f.fetch (.int start) c.endBlock.toJson).records) ∧
        ∀ o, Yields o (f.fetch (.int start) c.endBlock.toJson) fun r =>
          r.blocks.map (·.block) = Fetcher.blocksBetween start last.toInt ∧
            (r.blocks.length : Int) = min count.toInt last.toInt := by
  have hpasses := Config.Given.passes_of_check h
  have hchecked := hpasses.checked
  have hge : ∀ {q : Quantity}, (Number.whole q).lt (.int 1) = false → 1 ≤ q.toInt := Config.whole_not_lt_one
  have hend : 1 ≤ last.toInt := hge (hlast ▸ hchecked.endBlock)
  have hblocks : 1 ≤ count.toInt := hge (hcount ▸ hchecked.blockRange)
  have hbatch : 1 ≤ size.toInt := hge (hsize ▸ hchecked.batchSize)
  have hstart := Config.startBlock_of_whole hlast hcount
  generalize hfirst : max 1 (last.toInt - count.toInt + 1) = start at hstart
  -- Both the clamped and the whole range start no later than they end.
  have hone : 1 ≤ start := by omega
  have hle : start ≤ last.toInt := by omega
  have hnumber : last.toInt - start + 1 = min count.toInt last.toInt := by omega
  refine ⟨start, hstart, hone, hle, hnumber, hchecked.parse_target, hpasses.target_number, fun client => ?_⟩
  have hmade := fetcherOf_checked hchecked client
  refine ⟨_, hmade, rfl, rfl, ?_, ?_, fun o => ?_⟩
  · rw [hlast, Fetcher.rangeOf_last_whole, Fetcher.checkRange_int (by omega) hle]
    rfl
  · unfold fetchRecordsFrom
    rw [hmade, hstart]
    rfl
  · rw [hlast, Fetcher.fetch_last_whole]
    refine (Fetcher.fetch_blocks (by rw [hsize]; rfl) hbatch (by omega) hle).imp fun r hr => ⟨hr, ?_⟩
    have hlength := congrArg List.length hr
    simp only [List.length_map, Fetcher.blocksBetween_eq, List.length_range] at hlength
    omega

/-- Five blocks up to the second one. -/
def clampedGiven : Config.Given := { sampleGiven with blockRange := .int 5 }

def clampedConfig : Config := { sampleConfig with blockRange := .int 5 }

theorem check_clampedGiven : clampedGiven.check = .ok clampedConfig := by
  rw [Config.Given.check, show clampedGiven.target = .str Sample.address from rfl, readTarget_sample]
  rfl

/-- Where five blocks up to the second are asked for, the first two are fetched. -/
theorem intended_blocks_fetched_clamped :
    clampedGiven.check = .ok clampedConfig ∧ clampedConfig.endBlock = .whole (.int 2) ∧
      clampedConfig.blockRange = .whole (.int 5) ∧ clampedConfig.batchSize = .whole (.int 20) ∧
      clampedConfig.startBlock = .ok (.int 1) ∧
      ∀ client, ∃ f, fetcherOf client clampedConfig = .ok f ∧
        ∀ o, Yields o (f.fetch (.int 1) (.int 2)) fun r => r.blocks.map (·.block) = [1, 2] := by
  refine ⟨check_clampedGiven, rfl, rfl, rfl, rfl, fun client => ?_⟩
  obtain ⟨start, hstart, -, -, -, -, -, hfetches⟩ := intended_blocks_fetched check_clampedGiven rfl rfl rfl
  obtain rfl : (1 : Int) = start := by cases hstart; rfl
  obtain ⟨f, hf, -, -, -, -, hblocks⟩ := hfetches client
  exact ⟨f, hf, fun o => (hblocks o).imp fun r hr => hr.1⟩

end Backtest
end AssertionReplay
