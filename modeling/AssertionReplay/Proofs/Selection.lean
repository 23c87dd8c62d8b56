/-
Settling on a way of tracing without probing every one.

What the probes do depends on the requests made before and on nothing else: not
on the lines that were logged between them (`Probe.ranked_byTraffic`). So
`Probe.select`, which logs how each probe went, runs them just as `Probe.all`
does, up to the first that reports its way supported, and makes the same
requests and the same waits in the same order. The probes are ranked, so that
this one is the best of all that are reported supported (`Probe.select_lazily`).
-/
import AssertionReplay.Proofs.Backoff
import AssertionReplay.Proofs.Closure
import AssertionReplay.Proofs.Indistinguishability
import AssertionReplay.Proofs.Probing
import AssertionReplay.Proofs.Unseen

namespace AssertionReplay

open Text

/-! ## Traffic -/

/-- Whether the event is a request, or a wait before one. -/
def Event.isTraffic : Event → Bool
  | .post _ _ | .sleep _ => true
  | _ => false

namespace Journal

/-- The requests and the waits between them. -/
def traffic (j : Journal) : Journal := j.filter Event.isTraffic

@[simp] theorem traffic_append (j k : Journal) : traffic (j ++ k) = j.traffic ++ k.traffic := List.filter_append ..

theorem requests_traffic (j : Journal) : j.traffic.requests = j.requests := by
  induction j with
  | nil => rfl
  | cons e j ih =>
    have hcons : ∀ k : Journal, requests (e :: k) = requests [e] ++ k.requests := requests_append [e]
    rw [traffic, List.filter_cons]
    split
    · rw [hcons, hcons j]
      exact congrArg _ ih
    · rename_i hsilent
      have hnone : requests [e] = [] := by
        cases e with
        | post => exact absurd rfl hsilent
        | _ => rfl
      rw [hcons j, hnone]
      exact ih

end Journal

namespace Act

/-- What the action does is settled by the requests made before. -/
abbrev ByTraffic (o : Outside) (x : Act α) : Prop := InView Journal.traffic o o x x

variable {o : Outside}

theorem ByTraffic.record {e : Event} : ByTraffic o (Act.record e) :=
  InView.record fun j j' h => by rw [Journal.traffic_append, Journal.traffic_append, h]

theorem ByTraffic.sleep (seconds : Binary64) : ByTraffic o (Act.sleep seconds) := by
  intro j j' h
  unfold Act.sleep
  split
  · exact ⟨rfl, by rw [Journal.traffic_append, Journal.traffic_append, h]⟩
  · exact ⟨rfl, h⟩

theorem ByTraffic.post (connection : Connection) (request : Request) : ByTraffic o (Act.post connection request) := by
  intro j j' h
  refine ⟨?_, ?_⟩
  · show Except.ok (o.reply j.requests request) = Except.ok (o.reply j'.requests request)
    rw [← Journal.requests_traffic j, h, Journal.requests_traffic]
  · show Journal.traffic (j ++ [.post connection request]) = Journal.traffic (j' ++ [.post connection request])
    rw [Journal.traffic_append, Journal.traffic_append, h]

theorem mapEach_cons_eq_ok_iff {f : α → Act β} {x : α} {xs : List α} {ys : List β} {j after : Journal} :
    mapEach (x :: xs) f o j = (.ok ys, after) ↔ ∃ y j₁ ys', f x o j = (.ok y, j₁) ∧
      mapEach xs f o j₁ = (.ok ys', after) ∧ ys = y :: ys' := by
  constructor
  · intro h
    obtain ⟨y, j₁, hx, h⟩ := bind_apply_eq_ok_iff.mp h
    obtain ⟨ys', j₂, hxs, h⟩ := bind_apply_eq_ok_iff.mp h
    cases h
    exact ⟨y, j₁, ys', hx, hxs, rfl⟩
  · rintro ⟨y, j₁, ys', hx, hxs, rfl⟩
    exact bind_apply_eq_ok_iff.mpr ⟨y, j₁, hx, bind_apply_eq_ok_iff.mpr ⟨ys', after, hxs, rfl⟩⟩

theorem mapEach_split {f : α → Act β} {xs : List α} {ys : List β} {j after : Journal}
    (h : mapEach xs f o j = (.ok ys, after)) (k : Nat) :
    ∃ between, mapEach (xs.take k) f o j = (.ok (ys.take k), between) ∧
      mapEach (xs.drop k) f o between = (.ok (ys.drop k), after) := by
  induction xs generalizing ys j k with
  | nil =>
    cases h
    exact ⟨after, by simp [mapEach, Act.pure]⟩
  | cons x xs ih =>
    obtain ⟨y, j₁, ys', hx, hxs, rfl⟩ := mapEach_cons_eq_ok_iff.mp h
    cases k with
    | zero => exact ⟨j, rfl, h⟩
    | succ k =>
      obtain ⟨between, htake, hdrop⟩ := ih hxs k
      exact ⟨between, mapEach_cons_eq_ok_iff.mpr ⟨y, j₁, _, hx, htake, rfl⟩, hdrop⟩

end Act

open Act

variable {o : Outside}

theorem byTraffic_closed (o : Outside) : Closed fun x => ByTraffic o x where
  lift := InView.lift
  record _ := ByTraffic.record
  bind := InView.bind
  attempt := InView.attempt
  attemptOwn := InView.attemptOwn

namespace Probe

variable {c : Client} {block target : Json}

/-! ## Probes -/

/-- **What a probe does** is settled by the requests made before it. -/
theorem ranked_byTraffic (c : Client) (block target : Json) :
    ∀ probe ∈ ranked c block target, ByTraffic o probe := by
  refine ranked_closed (byTraffic_closed o) (fun method params => ?_) block target
  exact Client.call_closed (byTraffic_closed o) (.post _ _) .sleep

theorem classify_yields (way : Capability) (request : Act Json) :
    Yields o (classify way request) fun report => report.capability = way := by
  unfold classify
  refine .bind .any fun outcome _ => ?_
  cases outcome <;> exact .pure rfl

theorem ranked_yields (c : Client) (block target : Json) :
    List.Forall₂ (fun probe way => Yields o probe fun report => report.capability = way)
      (ranked c block target) [.traceFilter, .traceBlock, .traceTransaction] := by
  refine .cons ?_ (.cons (classify_yields _ _) (.cons ?_ .nil))
  · unfold traceFilter
    split
    · exact .pure rfl
    · exact classify_yields _ _
  · unfold traceTransaction
    refine .bind .any fun hash _ => ?_
    split
    · exact .pure rfl
    · exact classify_yields _ _

/-! ## The first that is supported -/

/-- Whether the report says that the way is supported. -/
abbrev saysSupported (report : ProbeReport) : Bool := report.status == .supported

/-- How many probes there are up to the first that reports its way supported. -/
def tried (reports : List ProbeReport) : Nat := reports.findIdx saysSupported + 1

/-- The way of the first report that says so. -/
def firstWay (reports : List ProbeReport) : Capability :=
  ((reports.find? saysSupported).map (·.capability)).getD .directCallsOnly

section

variable {probe : Act ProbeReport} (rest : List (Act ProbeReport)) {report : ProbeReport} {j j₁ : Journal}
  (h : probe o j = (.ok report, j₁))

include h

/-- A probe that reports its way supported is the last one. -/
theorem firstSupported_stops (hsupported : saysSupported report = true) :
    ∃ lines : Journal, lines.traffic = [] ∧
      firstSupported (probe :: rest) o j = (.ok report.capability, j₁ ++ lines) := by
  rw [firstSupported, bind_apply_of_ok h, if_pos hsupported]
  exact ⟨[.log _], rfl, rfl⟩

/-- After another one, a line or two are logged, and the next probe is run. -/
theorem firstSupported_goes_on (hsupported : saysSupported report = false) :
    ∃ lines : Journal, lines.traffic = [] ∧
      firstSupported (probe :: rest) o j = firstSupported rest o (j₁ ++ lines) := by
  rw [firstSupported, bind_apply_of_ok h, if_neg (Bool.eq_false_iff.mp hsupported)]
  by_cases hdetail : (!report.detail.isEmpty) = true
  · rw [if_pos hdetail]
    refine ⟨[.log ⟨.info, report.capability.method ++ " not usable: " ++ report.status.name, none⟩,
      .log ⟨.debug, report.detail, none⟩], rfl, ?_⟩
    show firstSupported rest o (j₁ ++ [_] ++ [_]) = _
    rw [List.append_assoc]
    rfl
  · rw [if_neg hdetail]
    exact ⟨[.log _], rfl, rfl⟩

end

/-- The lazy run ends as the first reports tell, having made the requests that led to them. -/
theorem firstSupported_tried {probes : List (Act ProbeReport)} (hprobes : ∀ probe ∈ probes, ByTraffic o probe)
    {j j' after : Journal} {reports : List ProbeReport} (h : mapEach probes id o j = (.ok reports, after))
    (hj : j.traffic = j'.traffic) :
    ∃ between last, mapEach (probes.take (tried reports)) id o j = (.ok (reports.take (tried reports)), between) ∧
      firstSupported probes o j' = (.ok (firstWay reports), last) ∧ last.traffic = between.traffic := by
  induction probes generalizing j j' reports with
  | nil =>
    cases h
    refine ⟨after, _, rfl, rfl, ?_⟩
    rw [Journal.traffic_append, hj]
    exact List.append_nil _
  | cons probe rest ih =>
    obtain ⟨report, j₁, others, hreport, hothers, rfl⟩ := mapEach_cons_eq_ok_iff.mp h
    obtain ⟨hprobe, hrest⟩ := List.forall_mem_cons.mp hprobes
    -- The probe goes from the other journal as it went from this one.
    obtain ⟨hend, htraffic⟩ := hprobe j j' hj
    rw [show probe o j = _ from hreport] at hend htraffic
    have hreport' : probe o j' = (.ok report, (probe o j').2) := Prod.ext hend.symm rfl
    cases hsupported : saysSupported report with
    | true =>
      obtain ⟨lines, hlines, hstops⟩ := firstSupported_stops rest hreport' hsupported
      have htried : tried (report :: others) = 1 := by rw [tried, List.findIdx_cons, hsupported]; rfl
      have hway : firstWay (report :: others) = report.capability := by
        rw [firstWay, List.find?_cons, hsupported]
        rfl
      refine ⟨j₁, _, ?_, hway ▸ hstops, ?_⟩
      · rw [htried]
        exact mapEach_cons_eq_ok_iff.mpr ⟨report, j₁, [], hreport, rfl, rfl⟩
      · rw [Journal.traffic_append, hlines, List.append_nil]
        exact htraffic.symm
    | false =>
      obtain ⟨lines, hlines, hgoes⟩ := firstSupported_goes_on rest hreport' hsupported
      have htried : tried (report :: others) = tried others + 1 := by
        rw [tried, List.findIdx_cons, hsupported]
        rfl
      have hway : firstWay (report :: others) = firstWay others := by rw [firstWay, List.find?_cons, hsupported]; rfl
      have hnext : j₁.traffic = ((probe o j').2 ++ lines).traffic := by
        rw [Journal.traffic_append, hlines, List.append_nil]
        exact htraffic
      obtain ⟨between, last, htake, hselect, hsame⟩ := ih hrest hothers hnext
      refine ⟨between, last, ?_, ?_, hsame⟩
      · rw [htried]
        exact mapEach_cons_eq_ok_iff.mpr ⟨report, j₁, _, hreport, htake, rfl⟩
      · rw [hgoes, hselect, hway]

/-! ## The best that is supported -/

/-- The way is the best of those that are reported supported; direct calls only is what is left if none
is. -/
structure IsBest (reports : List ProbeReport) (way : Capability) : Prop where
  reported : (∃ report ∈ reports, report.status = .supported ∧ report.capability = way) ∨
    way = .directCallsOnly ∧ ∀ report ∈ reports, report.status ≠ .supported
  highest : ∀ report ∈ reports, report.status = .supported → report.capability.rank ≤ way.rank

/-- Where better ways come first, the first that is supported is the best. -/
theorem isBest_firstWay {reports : List ProbeReport}
    (h : reports.Pairwise fun a b => b.capability.rank ≤ a.capability.rank) : IsBest reports (firstWay reports) := by
  rcases hfirst : reports.find? saysSupported with _ | report
  · have hnone : ∀ report ∈ reports, report.status ≠ .supported := fun report hmem hstatus =>
      List.find?_eq_none.mp hfirst report hmem (beq_iff_eq.mpr hstatus)
    have hway : firstWay reports = .directCallsOnly := by rw [firstWay, hfirst]; rfl
    exact ⟨.inr ⟨hway, hnone⟩, fun report hmem hstatus => absurd hstatus (hnone report hmem)⟩
  · have hway : firstWay reports = report.capability := by rw [firstWay, hfirst]; rfl
    obtain ⟨hstatus, before, after, rfl, hbefore⟩ := List.find?_eq_some_iff_append.mp hfirst
    rw [hway]
    refine ⟨.inl ⟨report, by simp, beq_iff_eq.mp hstatus, rfl⟩, fun other hmem hother => ?_⟩
    rcases List.mem_append.mp hmem with hmem | hmem
    · exact absurd (beq_iff_eq.mpr hother) (by simpa using hbefore other hmem)
    · rcases List.mem_cons.mp hmem with rfl | hmem
      · exact Nat.le_refl _
      · exact (List.pairwise_cons.mp (List.pairwise_append.mp h).2.1).1 other hmem

/-- **Selecting lazily.** Where all probes report, selecting from the same journal settles on the best way
that they report supported. It makes the same requests and waits as they do up to the first probe that
reports its way supported, and no others; if none does, it makes all of them. -/
theorem select_lazily {j after : Journal} {reports : List ProbeReport}
    (h : all c block target o j = (.ok reports, after)) :
    ∃ (way : Capability) (first rest lazily : Journal),
      IsBest reports way ∧ select c block target o j = (.ok way, j ++ lazily) ∧
      mapEach ((ranked c block target).take (tried reports)) id o j =
        (.ok (reports.take (tried reports)), j ++ first) ∧
      after = j ++ first ++ rest ∧ lazily.traffic = first.traffic ∧
      ((∀ report ∈ reports, report.status ≠ .supported) → rest = []) := by
  have hunseen := ranked_unseen c block target
  have hcapabilities : reports.map (·.capability) = [.traceFilter, .traceBlock, .traceTransaction] := by
    have hall := (mapEach_reports (Q := fun _ _ => True) (ranked_yields c block target)).ok h
    exact (Fetcher.forall₂_map_eq.mp (hall.flip.imp fun _ _ heq => heq.symm)).symm
  have hranked : reports.Pairwise fun a b => b.capability.rank ≤ a.capability.rank := by
    rw [← List.pairwise_map (f := ProbeReport.capability) (R := fun a b => b.rank ≤ a.rank), hcapabilities]
    decide
  obtain ⟨between, last, htake, hselect, hsame⟩ := firstSupported_tried (ranked_byTraffic c block target) h rfl
  obtain ⟨between', htake', hdrop⟩ := mapEach_split h (tried reports)
  obtain rfl : between = between' := congrArg Prod.snd (htake.symm.trans htake')
  -- Each run adds to the journal that it starts with.
  obtain ⟨lazily, hlast, -⟩ := select_unseen c block target o j
  obtain ⟨first, hfirst, -⟩ := trail_unseen.closed.mapEach (f := id)
    (fun probe hprobe => hunseen probe (List.mem_of_mem_take (i := tried reports) hprobe)) o j
  obtain ⟨rest, hrest, -⟩ := trail_unseen.closed.mapEach (f := id)
    (fun probe hprobe => hunseen probe (List.mem_of_mem_drop (i := tried reports) hprobe)) o between
  rw [select, hselect] at hlast
  rw [htake] at hfirst
  rw [hdrop] at hrest
  have hbetween : between = j ++ first := hfirst
  have hlast' : last = j ++ lazily := hlast
  refine ⟨firstWay reports, first, rest, lazily, isBest_firstWay hranked, hlast' ▸ hselect, hbetween ▸ htake,
    hbetween ▸ hrest, ?_, fun hnone => ?_⟩
  · rw [hbetween, hlast', Journal.traffic_append, Journal.traffic_append] at hsame
    exact List.append_cancel_left hsame
  · have hindex : reports.findIdx saysSupported = reports.length :=
      List.findIdx_eq_length_of_false fun report hmem => by simpa using hnone report hmem
    have hlength : reports.length = 3 := by simpa using congrArg List.length hcapabilities
    rw [List.drop_eq_nil_of_le (by rw [tried, hindex, hlength]; exact Nat.le_succ 3)] at hdrop
    obtain rfl : between = after := congrArg Prod.snd hdrop
    exact List.append_right_eq_self.mp hrest.symm

/-- Blocks can be traced, and nothing else is answered. -/
def blockTracing : Outside := Client.answering fun request =>
  if request.method == "debug_traceBlockByNumber" then some (.arr []) else none

theorem all_blockTracing (j : Journal) :
    ∃ reports after, all Sample.client (.int 1) (.str Sample.address) blockTracing j = (.ok reports, after) := by
  have hfails : ∀ m,
      Sample.client.Fails blockTracing "eth_getBlockByNumber" (.arr [.str (hexNumeral m), .bool false]) :=
    fun m => Client.fails_answering (k := 4) rfl rfl
  have horderly : Sample.client.Orderly blockTracing := proper_sample.orderly (Client.overHttp_answering _)
  have hends : Act.Ends blockTracing (all Sample.client (.int 1) (.str Sample.address)) (fun _ => True)
      fun _ _ => False :=
    (all_ends horderly).mono (fun _ _ => trivial) fun e j h => not_balks
      (fun m _ _ _ => (hfails m).mono (fun _ hfalse => hfalse.elim) fun _ _ _ => trivial)
      (Client.not_brokenOff fun past request => Client.staysWithin_answering _ past request _) h
  obtain ⟨reports, hreports, -⟩ := hends.ensures j
  exact ⟨reports, _, Prod.ext hreports rfl⟩

/-- The requests of the lazy run are the first ones of the full run. -/
theorem select_lazily_blockTracing :
    ∃ (reports : List ProbeReport) (way : Capability) (after first rest lazily : Journal),
    all Sample.client (.int 1) (.str Sample.address) blockTracing [] = (.ok reports, after) ∧ IsBest reports way ∧
    select Sample.client (.int 1) (.str Sample.address) blockTracing [] = (.ok way, [] ++ lazily) ∧
    after = [] ++ first ++ rest ∧ lazily.traffic = first.traffic := by
  obtain ⟨reports, after, h⟩ := all_blockTracing []
  obtain ⟨way, first, rest, lazily, hbest, hselect, -, hafter, hsame, -⟩ := select_lazily h
  exact ⟨reports, way, after, first, rest, lazily, h, hbest, hselect, hafter, hsame⟩

end Probe
end AssertionReplay
