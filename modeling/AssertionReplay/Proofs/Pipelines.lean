/-
The two ways to a backtest.

A run can fetch its records itself, or be given those that the fetch command
wrote for another process. From an endpoint that tells the truth both come to
the same records, whatever the sizes of the batches, and they survive being
written and read. The assertion host does not notice a fetch, so it is asked
the same questions, and both runs return the same (`pipelines_agree`).
-/
import AssertionReplay.CommandLine.Tools
import AssertionReplay.Proofs.AcceptedConfig
import AssertionReplay.Proofs.Emitted
import AssertionReplay.Proofs.InStep
import AssertionReplay.Proofs.Truthful
import Mathlib.Data.List.Flatten

namespace AssertionReplay

open Text Act

variable {o : Outside} {chain : Chain} {touching : Int → Mined → Bool} {a b size conc : Int} {rs : List Record}

/-! ## The records of a chain -/

namespace Chain

/-- What is fetched of the range can be sent: the records of its transactions are regular, their numbers
have numerals, and so has the number of all records. -/
structure Sendable (chain : Chain) (a b : Int) : Prop where
  regular : ∀ n, a ≤ n → n ≤ b → ∀ t ∈ chain.block n, t.record.Regular
  numerals : ∀ n, a ≤ n → n ≤ b → ∀ t ∈ chain.block n, ∀ q ∈ t.record.quantities, HasNumeral q.toInt
  count : HasNumeral (chain.records (fun _ _ => true) a b).length

theorem of_mem_records {r : Record} (h : r ∈ chain.records touching a b) :
    ∃ n t, a ≤ n ∧ n ≤ b ∧ t ∈ chain.block n ∧ t.record = r := by
  obtain ⟨i, hi, hr⟩ := List.mem_flatMap.mp h
  obtain ⟨t, ht, hrecord⟩ := List.mem_map.mp hr
  have hi : i < (b + 1 - a).toNat := List.mem_range.mp hi
  exact ⟨a + i, t, by omega, by omega, (List.mem_filter.mp ht).1, hrecord⟩

theorem records_sublist : (chain.records touching a b).Sublist (chain.records (fun _ _ => true) a b) :=
  .flatMap_right _ fun _ _ => (List.monotone_filter_right _ fun _ _ => rfl).map _

theorem Sendable.canonical (h : chain.Sendable a b) : ∀ r ∈ chain.records touching a b, r.Canonical := by
  intro r hr
  obtain ⟨n, t, ha, hb, ht, rfl⟩ := of_mem_records hr
  obtain ⟨i, hat⟩ := at_of_mem ht
  have hobject : t.record.FromObject := ⟨t.object, some n, hat.record⟩
  exact ⟨hobject.normal_iff.mpr (h.regular n ha hb t ht), h.numerals n ha hb t ht⟩

theorem Sendable.length (h : chain.Sendable a b) : HasNumeral (chain.records touching a b).length :=
  HasNumeral.between (hasNumeral_digit (n := 0) (by decide)) h.count (by omega)
    (Int.ofNat_le.mpr records_sublist.length_le)

end Chain

/-- The line about a canonical record can show where it stood. -/
theorem Record.Canonical.shown {r : Record} (h : r.Canonical) : r.Shown := by
  have htext : ∀ q ∈ r.quantities, q.text?.isSome = true := by
    intro q hq
    obtain ⟨n, rfl⟩ := h.quantities q hq
    have hn : HasNumeral n := h.numerals _ hq
    rw [Quantity.text?, decimal?_eq_some_iff.mpr hn]
    rfl
  exact ⟨htext _ (by simp [quantities]), htext _ (by simp [quantities])⟩

/-! ## A run that fetches -/

/-- The parameters are for the blocks from `a` to `b`, and inner calls are to be found. The numbers are
whole. -/
structure Config.Asks (c : Config) (a b size conc : Int) : Prop where
  start : c.startBlock = .ok (.int a)
  last : c.endBlock = .int b
  batches : c.batchSize = .int size
  workers : c.concurrency = .int conc
  inner : c.detectInner.isGiven = true
  client : (Backtest.clientOf c).Proper

theorem Config.Asks.starts {c : Config} (h : c.Asks a b size conc) : c.Starts := ⟨.int a, h.start⟩

namespace Backtest

variable {c : Config}

theorem fetchRecords_unseen (c : Config) : Unseen (fetchRecords c) :=
  Unseen.lift.bind fun f => Unseen.lift.bind fun _ => (f.fetch_unseen _ _).bind fun _ => .pure

theorem fetchRecords_ensures (hc : c.Asks a b size conc) (hchecked : c.Checked)
    (hreturns : 1 ≤ size →
      (Fetcher.unsettled (clientOf c) c.target size conc).Returns o a b fun r => r.records = rs) :
    Ensures o (fetchRecords c) (· = rs) := by
  have hsize : 1 ≤ size := Config.whole_not_lt_one (hc.batches ▸ hchecked.batchSize)
  have hconc : 1 ≤ conc := Config.whole_not_lt_one (hc.workers ▸ hchecked.concurrency)
  have hcreated := Fetcher.unsettled_created (clientOf c) hchecked.parse_target hsize hconc
  have hfetch := (hreturns hsize).ensures rfl
  have heq : fetchRecords c = (do
      let f ← Fetcher.create (clientOf c) (.str c.target) (.int size) (.int conc) true false none false
      return (← f.fetch (.int a) (.int b)).records) := by
    unfold fetchRecords fetchRecordsFrom fetcherOf
    rw [hc.batches, hc.workers, hc.inner, hc.start, hc.last]
    rfl
  rw [heq, hcreated, lift_ok_bind]
  exact Ends.ensures (.bind hfetch.ends fun _ h => .pure h)

end Backtest

/-! ## The command -/

namespace CommandLine

open Payload

variable {s : FetchSettings} {address : String} {format : Format}

/-- The settings are for the blocks from `a` to `b` and the address, and inner calls are to be found, but
not by receipts. No bar is drawn. -/
structure FetchSettings.Asks (s : FetchSettings) (address : String) (a b size conc : Int) (format : Format) :
    Prop where
  target : Address.parse s.target = .ok address
  first : s.first = .int a
  last : s.last = .int b
  batches : s.batchSize = .int size
  workers : s.concurrency = .int conc
  format : s.format = .str format.name
  inner : s.noInner = false
  receipts : s.receiptFallback = false
  bar : s.progress = false
  url : s.common.url.isGiven = true
  client : (clientOf s.common).Proper
  positive : 1 ≤ size ∧ 1 ≤ conc

/-- The line that the command starts with. -/
def startEntry : Event := .log ⟨.info, "Starting transaction fetch with internal call detection", none⟩

/-- The summaries come after the frame, if they are asked for. -/
theorem summaries_apply (p : Bool) (text : Text) (o : Outside) (j : Journal) :
    ∃ tail : Journal, (if p then Act.print text else Pure.pure () : Act Unit) o j = (.ok (), j ++ tail) := by
  cases p with
  | false => exact ⟨[], congrArg (Prod.mk _) (List.append_nil j).symm⟩
  | true => exact ⟨[.printed text], rfl⟩

/-- **What the command writes** is read as the records that it fetched. -/
theorem runFetch_writes (hs : s.Asks address a b size conc format)
    (hreturns : (Fetcher.unsettled (clientOf s.common) address size conc).Returns o a b fun r => r.records = rs)
    (hrs : ∀ r ∈ rs, r.Canonical) (hcount : HasNumeral rs.length) (j : Journal) :
    ∃ written : Journal, runFetch s o j = (.ok (), j ++ written) ∧ parseOutput written.printed = .ok rs := by
  have hcreated := Fetcher.unsettled_created (clientOf s.common) hs.target hs.positive.1 hs.positive.2
  have hfetch := hreturns.ensures rfl
  obtain ⟨payload, hwrite, hread⟩ := write_canonical hrs format
  have heq : runFetch s = (do
      Act.log .info "Starting transaction fetch with internal call detection"
      let f ← Fetcher.create (clientOf s.common) s.target (.int size) (.int conc) true false none false
      let fetched ← f.fetch (.int a) (.int b)
      printPayload (.str format.name) fetched.records
      if s.detailed then
        Act.print ("\n".intercalate (BlockResult.summaries fetched.blocks) ++ "\n")) := by
    unfold runFetch
    rw [hs.batches, hs.workers, hs.inner, hs.receipts, hs.bar, hs.first, hs.last, hs.format]
    rfl
  rw [heq, hcreated, lift_ok_bind]
  obtain ⟨r, hr, rfl⟩ := hfetch (j ++ [startEntry])
  obtain ⟨more, hmore, hunseen⟩ := Fetcher.fetch_unseen (Fetcher.unsettled (clientOf s.common) address size conc)
    (.int a) (.int b) o (j ++ [startEntry])
  obtain ⟨tail, htail⟩ := summaries_apply s.detailed
    ("\n".intercalate (BlockResult.summaries r.blocks) ++ "\n") o
    (j ++ [startEntry] ++ more ++ [.printed frameHead, .printed (frameBody payload)])
  refine ⟨[startEntry] ++ more ++ [.printed frameHead, .printed (frameBody payload)] ++ tail, ?_, ?_⟩
  · rw [bind_apply_of_ok (show Act.log .info _ o j = (.ok (), j ++ [startEntry]) from rfl),
      bind_apply_of_ok (Prod.ext hr hmore), bind_apply_of_ok (printPayload_of_write hwrite o _), htail]
    simp only [List.append_assoc]
  -- Nothing is printed before the frame, and what comes after it does not matter to the reader.
  · have hbefore : Journal.printed ([startEntry] ++ more) = ⟨[]⟩ :=
      Journal.printed_of_unseen (by simpa using ⟨rfl, hunseen⟩)
    rw [Journal.printed_append, Journal.printed_append, hbefore, printed_frame]
    exact (hread tail.printed (not_hasMarker (by simp))).mpr fun _ => hcount

theorem applyAll_valued {σ : Type} {specs : List (Spec σ)} {p : Progressed σ} {required : Bool}
    {read : Text → Except Text Json} {set : Json → σ → σ} {name given : Text} {v : Json}
    {rest : List (Text × Piece σ)} (hread : valueOf read given = .ok v) :
    applyAll specs p ((name, .option (valued name required read set) name none) :: (given, .plain) :: rest) =
      applyAll specs (p.saw (valued name required read set) (set v)) rest := by
  have hstep : applyAll specs p ((name, .option (valued name required read set) name none) :: (given, .plain) :: rest) =
      (applyValue (valued name required read set) read set given p).bind (applyAll specs · rest) := by
    -- The recursion takes one argument or two, and has no equations of its own.
    delta applyAll
    rfl
  rw [hstep, applyValue, hread]
  rfl

theorem fetchCommand_of_parse {env : String → Option Text} {args : List Text}
    (hparse : parse fetchSpecs { common := initial env } args = .settings s)
    (hs : s.Asks address a b size conc format) (h0 : 0 ≤ a) (hab : a ≤ b) :
    fetchCommand env args = .run (logLevel s.common) (runFetch s) := by
  unfold fetchCommand
  rw [hparse]
  simp [hs.url, hs.first, hs.last, Fetcher.rangeOf_int h0 hab]

end CommandLine

/-! ## The sample -/

namespace Backtest

/-- The parameters of a run over the two blocks of the sample. -/
def sampleFields : OrderedMap Json := [("target_contract", .str Sample.address), ("end_block", .int 2),
  ("block_range", .int 2), ("assertion_bytecode", .str "0x01"), ("trigger_selector", .str "0x00000001"),
  ("rpc_url", .str "http://node"), ("rpc_timeout", .int 30)]

def sampleConfig : Config where
  target := Sample.address
  endBlock := .int 2
  blockRange := .int 2
  bytecode := .bytes [1]
  selector := .bytes [0, 0, 0, 1]
  url := .str "http://node"
  arguments := .bytes []
  forkByHash := .bool true
  batchSize := .int 20
  concurrency := .int 10
  timeout := .int 30
  detectInner := .bool true
  traceFailures := .bool true
  version := .int 1

/-- The arguments for the same blocks; the endpoint is named by the environment. -/
def sampleArguments : List Text := ["--target-contract", Sample.address, "--start-block", "1", "--end-block", "2",
  "--detailed-blocks"]

def sampleEnvironment (name : String) : Option Text :=
  if name == "ETH_RPC_URL" then some "http://node" else none

def sampleSettings : CommandLine.FetchSettings where
  common := { url := .str "http://node" }
  target := .str Sample.address
  first := .int 1
  last := .int 2
  detailed := true

/-- What the fields give, and what is filled in. -/
def sampleGiven : Config.Given where
  target := .str Sample.address
  endBlock := .int 2
  blockRange := .int 2
  bytecode := .bytes [1]
  selector := .bytes [0, 0, 0, 1]
  url := .str "http://node"
  arguments := .bytes []
  forkByHash := .bool true
  batchSize := .int 20
  concurrency := .int 10
  timeout := .int 30
  detectInner := .bool true
  traceFailures := .bool true
  version := .int 1

theorem readTarget_sample : Config.readTarget (.str Sample.address) = .ok Sample.address := by
  rw [Config.readTarget, Sample.parse_address]
  rfl

/-- The names are sorted, and the target is hashed; the rest is evaluated. -/
theorem read_sampleFields : Config.read (fun _ => none) sampleFields = .ok sampleConfig := by
  have hnames : Config.unknownNames sampleFields = [] := by
    rw [Config.unknownNames, show sampleFields.names.filter (fun n => !Config.knownFields.contains n) = [] from rfl]
    exact List.mergeSort_nil
  have hfill : Config.fill (fun _ => none) sampleFields = .ok sampleGiven := by
    rw [Config.fill, hnames]
    rfl
  refine Config.read_eq_ok_iff.mpr ⟨_, hfill, ?_⟩
  rw [Config.Given.check, show sampleGiven.target = .str Sample.address from rfl, readTarget_sample]
  rfl

theorem parse_sampleArguments :
    CommandLine.parse CommandLine.fetchSpecs { common := CommandLine.initial sampleEnvironment } sampleArguments =
      .settings sampleSettings := by
  have haddress : CommandLine.valueOf CommandLine.address Sample.address = .ok (.str Sample.address) := by
    rw [CommandLine.valueOf, if_neg (by decide), CommandLine.address, Address.parseText, Sample.parse_address]
  rw [CommandLine.parse, show CommandLine.classifyAll CommandLine.fetchSpecs sampleArguments = .ok (_ :: _ :: _) from rfl]
  dsimp only
  rw [CommandLine.applyAll_valued haddress]
  delta CommandLine.applyAll
  rfl

theorem asks_sampleConfig : sampleConfig.Asks 1 2 20 10 where
  start := rfl
  last := rfl
  batches := rfl
  workers := rfl
  inner := rfl
  client := Probe.proper_sample

theorem asks_sampleSettings : sampleSettings.Asks Sample.address 1 2 10 5 .simple where
  target := Sample.parse_address
  first := rfl
  last := rfl
  batches := rfl
  workers := rfl
  format := rfl
  inner := rfl
  receipts := rfl
  bar := rfl
  url := rfl
  client := ⟨⟨4, rfl⟩, ⟨_, rfl⟩⟩
  positive := by decide

theorem truthful_sample : Sample.chain.Truthful Sample.truthful (clientOf sampleConfig) Sample.address 1 2 where
  blocks := Sample.served (by decide)
  samples n h0 _ hn := by
    have hgets : Sample.client.Gets Sample.truthful "eth_getBlockByNumber" (.arr [.str (hexNumeral n), .bool false])
        (Sample.blockObject n) := by
      refine Client.gets_answering (k := 4) rfl ?_
      show (Sample.numbered? (.arr [.str (hexNumeral n), .bool false])).bind _ = _
      rw [Sample.numbered_hexNumeral h0, Option.bind_some]
      rfl
    refine Ends.imp (Ensures.ends hgets) fun v hv hodd => ?_
    obtain ⟨e, he⟩ := Probe.oddBlock_iff.mp hodd
    rw [hv] at he
    obtain rfl | rfl : n = 0 ∨ n = 1 := by omega
    · cases he
    · cases he
  ranges := .inl (Sample.tracesRanges (by decide))
  frames := ⟨_, Sample.tracesBlocks (by decide)⟩
  trees := ⟨_, Sample.tracesTransactions⟩

theorem sendable_sample : Sample.chain.Sendable 1 2 where
  regular n _ _ t ht := by
    rcases Sample.mem_blocks ht with _ | ⟨_, _ | ⟨_, _ | ⟨_, _ | ⟨_, ⟨⟩⟩⟩⟩⟩
    all_goals exact ⟨rfl, ⟨_, rfl, by decide⟩, by decide, by simp [Record.quantities, Sample.mined]⟩
  numerals n _ _ t ht := by
    have hdecimal : ∀ q ∈ t.record.quantities, decimal? q.toInt = some (decimal q.toInt) := by
      rcases Sample.mem_blocks ht with _ | ⟨_, _ | ⟨_, _ | ⟨_, _ | ⟨_, ⟨⟩⟩⟩⟩⟩ <;> decide
    exact fun q hq => decimal?_eq_some_iff.mp (hdecimal q hq)
  count := hasNumeral_digit (by decide)

end Backtest

/-! ## Both ways -/

namespace Backtest

variable {o' : Outside} {c : Config}

/-- A run that fetches goes in step with one that is given what is fetched. -/
theorem run_given_inStep {o₂ : Outside} (h : o.host = o₂.host) (classify : Classifier)
    (hfetched : Ensures o (fetchRecords c) (· = rs)) :
    InStep o o₂ (run c classify none) (run c classify (some rs)) :=
  run_inStep h c classify (.of_unseen (fetchRecords_unseen c) hfetched)

/-- Only overlong data keeps a run from judging all the records that it is given. -/
theorem run_given_ends (hc : c.Starts) (hrs : ∀ r ∈ rs, r.Shown) (o : Outside) :
    Calls o (run c .standard (some rs)) fun ended xs =>
      (∃ t, ended = .ok t ∧ t.total = rs.length ∧ t.processed = rs.length) ∨ ∃ x ∈ xs, x.Overlong := by
  refine (Replay.run_ends c rs o).mono fun ended xs h => ?_
  cases ended with
  | ok t =>
    obtain ⟨htotal, hprocessed, -⟩ := h
    exact .inl ⟨t, rfl, htotal, hprocessed⟩
  | error e =>
    refine .inr ?_
    have hloud : ¬ Replay.Quiet xs := fun hquiet => h ⟨hc, hrs, hquiet⟩
    simpa [Replay.Quiet] using hloud

/-- **Both ways to a backtest agree.** Let an endpoint answer each request always in the same way, without
asking for waits that are too long, and tell the truth about a chain, and let the fetch command be called
for the blocks and the target of a run. Then it writes a payload, and the records read from it lead a run
to what it returns when it fetches them itself, after the same calls of the host; and either run judges
all of them, if no execution that counts gives overlong data. -/
theorem pipelines_agree {env env' : String → Option Text} {raw : OrderedMap Json} {args : List Text}
    {s : CommandLine.FetchSettings} {format : Payload.Format} {size' conc' : Int} {answer : Request → Reply}
    (hread : Config.read env raw = .ok c) (hc : c.Asks a b size conc)
    (hparse : CommandLine.parse CommandLine.fetchSpecs { common := CommandLine.initial env' } args = .settings s)
    (hs : s.Asks c.target a b size' conc' format) (hhttp : ∀ request, (answer request).OverHttp)
    (ho : ∀ past request, o.reply past request = answer request)
    (ho' : ∀ past request, o'.reply past request = answer request) (hlimit : o'.pauseLimit? = o.pauseLimit?)
    (hpauses : ∀ request, (answer request).StaysWithin o.pauseLimit?)
    (htruth : chain.Truthful o (clientOf c) c.target a b) (hsend : chain.Sendable a b) :
    ∃ rs level command, CommandLine.fetchCommand env' args = .run level command ∧
      (∀ j, ∃ written : Journal, command o' j = (.ok (), j ++ written) ∧
        Payload.parseOutput written.printed = .ok rs) ∧
      (∀ classify o₂, o.host = o₂.host → InStep o o₂ (run c classify none) (run c classify (some rs))) ∧
      Calls o (run c .standard none) fun ended xs =>
        (∃ t, ended = .ok t ∧ t.total = rs.length ∧ t.processed = rs.length) ∨ ∃ x ∈ xs, x.Overlong := by
  have hchecked := Config.checked_of_read hread
  obtain ⟨h1, hab⟩ := hchecked.range hc.start hc.last
  have h0 : 0 ≤ a := by omega
  have horderly : (clientOf c).Orderly o := hc.client.orderly fun past request => by rw [ho]; exact hhttp request
  -- Both clients repeat a request as often, so the endpoint tells both the same.
  have hself : (clientOf c).Mirrors (clientOf c) o o := hc.client.mirrors hc.client rfl ho ho rfl
  have hmirrors : (clientOf c).Mirrors (CommandLine.clientOf s.common) o o' :=
    hc.client.mirrors hs.client rfl ho ho' hlimit
  have hunbroken : ∀ e j, ¬ (clientOf c).BrokenOff o e j := fun _ _ =>
    Client.not_brokenOff fun past request => by rw [ho]; exact hpauses request
  obtain ⟨touching, hfetch⟩ := Fetcher.fetch_truthful htruth horderly hself hunbroken h0 hab
  have hcanonical : ∀ r ∈ chain.records touching a b, r.Canonical := hsend.canonical
  have hfetched : Ensures o (fetchRecords c) (· = chain.records touching a b) :=
    fetchRecords_ensures hc hchecked fun hsize => hfetch conc hself hsize
  refine ⟨chain.records touching a b, _, _, CommandLine.fetchCommand_of_parse hparse hs h0 hab, ?_, ?_, ?_⟩
  · exact CommandLine.runFetch_writes hs (hfetch conc' hmirrors hs.positive.1) hcanonical hsend.length
  · exact fun classify o₂ hhost => run_given_inStep hhost classify hfetched
  · intro j
    have hstep : InStep o o (run c .standard none) (run c .standard (some (chain.records touching a b))) :=
      run_given_inStep rfl .standard hfetched
    obtain ⟨hended, hcalls⟩ := hstep j j rfl
    rw [hended, hcalls]
    exact run_given_ends hc.starts (fun r hr => (hcanonical r hr).shown) o j

/-- The two blocks of the sample, with the batches of each way. The host raises at every call, and still all
records are judged. -/
theorem pipelines_agree_sample :
    (Config.read (fun _ => none) sampleFields = .ok sampleConfig ∧ sampleConfig.Asks 1 2 20 10 ∧
      CommandLine.parse CommandLine.fetchSpecs { common := CommandLine.initial sampleEnvironment } sampleArguments =
        .settings sampleSettings ∧
      sampleSettings.Asks Sample.address 1 2 10 5 .simple ∧
      (∀ request, (Sample.truthful.reply [] request).OverHttp) ∧
      (∀ request, (Sample.truthful.reply [] request).StaysWithin Sample.truthful.pauseLimit?) ∧
      Sample.chain.Truthful Sample.truthful (clientOf sampleConfig) Sample.address 1 2 ∧
      Sample.chain.Sendable 1 2) ∧
    ∃ rs level command, CommandLine.fetchCommand sampleEnvironment sampleArguments = .run level command ∧
      (∀ j, ∃ written : Journal, command Sample.truthful j = (.ok (), j ++ written) ∧
        Payload.parseOutput written.printed = .ok rs) ∧
      (∀ classify o₂, Sample.truthful.host = o₂.host →
        InStep Sample.truthful o₂ (run sampleConfig classify none) (run sampleConfig classify (some rs))) ∧
      ∀ j, ∃ t, (run sampleConfig .standard none Sample.truthful j).1 = .ok t ∧ t.processed = rs.length := by
  have hhttp : ∀ request, (Sample.truthful.reply [] request).OverHttp := Client.overHttp_answering _ []
  have hpauses : ∀ request, (Sample.truthful.reply [] request).StaysWithin Sample.truthful.pauseLimit? :=
    fun request => Client.staysWithin_answering _ [] request _
  have hreply : ∀ past request, Sample.truthful.reply past request = Sample.truthful.reply [] request := fun _ _ => rfl
  refine ⟨⟨read_sampleFields, asks_sampleConfig, parse_sampleArguments, asks_sampleSettings, hhttp, hpauses, truthful_sample,
    sendable_sample⟩, ?_⟩
  obtain ⟨rs, level, command, hcommand, hwrites, hsteps, hends⟩ := pipelines_agree read_sampleFields asks_sampleConfig
    parse_sampleArguments asks_sampleSettings hhttp hreply hreply rfl hpauses truthful_sample sendable_sample
  refine ⟨rs, level, command, hcommand, hwrites, hsteps, fun j => ?_⟩
  obtain ⟨calls, -, ⟨t, ht, -, hprocessed⟩ | ⟨x, hx, hloud⟩⟩ := hends j
  · exact ⟨t, ht, hprocessed⟩
  · obtain ⟨past, hanswer⟩ := Outside.of_mem_exchanges hx
    exact absurd hloud (Replay.not_overlong_of_raised ⟨_, hanswer⟩)

end Backtest
end AssertionReplay
