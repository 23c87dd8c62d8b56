/-
How far probing comes.

The probes make requests, and a request over HTTP ends with a value or with a
fault that the probe reports, unless it is broken off at a wait that the
endpoint asks for and that is too long to be made. Nor is a block reported in
which no transaction can be looked for: it is no object, its transactions are
no list, or the first of them is an object without a hash (`OddBlock`). Probing
fails at such a request and at such a block (`Probe.Balks`), and it fails
nowhere else (`probing_ends`).
-/
import AssertionReplay.Proofs.CallFaults
import AssertionReplay.Proofs.Range

namespace AssertionReplay

open Text

/-! ## Blocks that no transaction can be taken from -/

/-- No transaction can be looked for in the block, though it is given. -/
inductive OddBlock : Json → Prop
  /-- The block is no object. -/
  | noObject {v : Json} (hgiven : v.isGiven = true) (hobject : ∀ members, v ≠ .obj members) : OddBlock v
  /-- Its transactions are neither an array nor a text. -/
  | noList {members : List (Text × Json)} (hgiven : (Json.memberOrNull members "transactions").isGiven = true)
      (harray : ∀ items, Json.memberOrNull members "transactions" ≠ .arr items)
      (htext : ∀ t, Json.memberOrNull members "transactions" ≠ .str t) : OddBlock (.obj members)
  /-- Its first transaction is an object without a hash. -/
  | noHash {members fields : List (Text × Json)} {rest : List Json}
      (hfirst : Json.memberOrNull members "transactions" = .arr (.obj fields :: rest))
      (hhash : (Json.obj fields).member? "hash" = none) : OddBlock (.obj members)

namespace Probe

/-- The transactions of a block that is given as an object; what is not given has none. -/
def listedIn (v : Json) : Except Fault Json :=
  if !v.isGiven then .ok .null
  else
    match v with
    | .obj members => .ok (Json.memberOrNull members "transactions")
    | _ => .error .noSuchPart

/-- The hash of the first of some transactions, if there is one. -/
def sampleOf (transactions : Json) : Except Fault (Option Json) :=
  if !transactions.isGiven then .ok none
  else
    match transactions with
    | .arr (first :: _) => (hashOf first).map some
    | .str t => .ok (some (.str (t.take 1)))
    | .obj _ => .error .missingMember
    | _ => .error .mistyped

/-- What is looked for in a block. -/
def sampleIn (v : Json) : Except Fault (Option Json) := listedIn v >>= sampleOf

theorem sampleIn_eq (v : Json) : sampleIn v = (do
    match ← firstTransaction? v with
    | some transaction => (hashOf transaction).map some
    | none => .ok none) := by
  have hlisted : firstTransaction? v = (do
      let transactions ← listedIn v
      if !transactions.isGiven then return none
      match transactions with
      | .arr (first :: _) => return some first
      | .str t => return some (.str (t.take 1))
      | .obj _ => .error .missingMember
      | _ => .error .mistyped) := by
    unfold firstTransaction? listedIn
    cases hgiven : v.isGiven <;> cases v <;> rfl
  rw [hlisted, sampleIn]
  rcases listedIn v with e | ts
  · rfl
  · simp only [bind, Except.bind, sampleOf]
    cases hgiven : ts.isGiven with
    | false => rfl
    | true => rcases ts with _ | _ | _ | _ | t | ⟨_ | _⟩ | _ <;> rfl

theorem listedIn_obj (members : List (Text × Json)) :
    listedIn (.obj members) = .ok (Json.memberOrNull members "transactions") := by
  cases members <;> rfl

theorem hashOf_fails_iff {transaction : Json} : (∃ e, hashOf transaction = .error e) ↔
    ∃ fields, transaction = .obj fields ∧ (Json.obj fields).member? "hash" = none := by
  cases transaction with
  | obj fields => cases hhash : (Json.obj fields).member? "hash" <;> simp [hashOf, hhash]
  | _ => simp [hashOf]

/-- Nothing can be looked for in transactions that are no list, or the first of which has no hash. -/
theorem sampleOf_fails_iff {ts : Json} : (∃ e, sampleOf ts = .error e) ↔
    (ts.isGiven = true ∧ (∀ items, ts ≠ .arr items) ∧ ∀ t, ts ≠ .str t) ∨
      ∃ fields rest, ts = .arr (.obj fields :: rest) ∧ (Json.obj fields).member? "hash" = none := by
  cases hgiven : ts.isGiven with
  | false =>
    have hempty : ∀ first rest, ts ≠ .arr (first :: rest) := by
      intro first rest hts
      subst hts
      cases hgiven
    simp [sampleOf, hgiven, hempty]
  | true =>
    rcases ts with _ | _ | _ | _ | t | ⟨_ | ⟨first, rest⟩⟩ | _
    case arr.nil => cases hgiven
    case arr.cons =>
      have hsample : (∃ e, sampleOf (.arr (first :: rest)) = .error e) ↔ ∃ e, hashOf first = .error e := by
        cases hhash : hashOf first <;> simp [sampleOf, hgiven, hhash, Except.map]
      rw [hsample, hashOf_fails_iff]
      simp
    all_goals simp [sampleOf, hgiven]

/-- **Odd blocks** are those in which nothing can be looked for. -/
theorem oddBlock_iff {v : Json} : OddBlock v ↔ ∃ e, sampleIn v = .error e := by
  by_cases hobject : ∃ members, v = .obj members
  · obtain ⟨members, rfl⟩ := hobject
    rw [sampleIn, listedIn_obj, show (Except.ok _ >>= sampleOf) = sampleOf _ from rfl, sampleOf_fails_iff]
    constructor
    · intro h
      cases h with
      | noObject _ hobject => exact absurd rfl (hobject members)
      | noList hgiven harray htext => exact .inl ⟨hgiven, harray, htext⟩
      | noHash hfirst hhash => exact .inr ⟨_, _, hfirst, hhash⟩
    · intro h
      rcases h with ⟨hgiven, harray, htext⟩ | ⟨fields, rest, hfirst, hhash⟩
      · exact .noList hgiven harray htext
      · exact .noHash hfirst hhash
  · have hlisted : listedIn v = if v.isGiven then .error .noSuchPart else .ok .null := by
      cases v with
      | obj members => exact absurd ⟨members, rfl⟩ hobject
      | _ => grind [listedIn]
    constructor
    · intro h
      cases h with
      | noObject hgiven _ => exact ⟨.noSuchPart, by rw [sampleIn, hlisted, if_pos hgiven]; rfl⟩
      | noList | noHash => exact absurd ⟨_, rfl⟩ hobject
    · intro h
      obtain ⟨e, he⟩ := h
      refine .noObject ?_ fun members hv => hobject ⟨members, hv⟩
      by_contra hgiven
      rw [sampleIn, hlisted, if_neg hgiven] at he
      cases he

/-! ## The probes -/

variable {c : Client} {o : Outside} {n : Int} {target : Json} {Q : Fault → Journal → Prop}

/-- The request for a block that a transaction is looked for in. -/
abbrev lookUp (c : Client) (m : Int) : Act Json := c.blockByNumber (.int m) (.bool false)

/-- Probing stops right after the request for a block that is not below zero and not more than four below
the given one, and that block is odd; or a request of it is broken off. -/
inductive Balks (c : Client) (o : Outside) (n : Int) (e : Fault) (j : Journal) : Prop
  | odd {m : Int} {past : Journal} {v : Json} (h0 : 0 ≤ m) (habove : n - sampleLookback < m) (hm : m ≤ n)
      (hlooked : lookUp c m o past = (.ok v, j)) (hodd : OddBlock v) : Balks c o n e j
  | broken (h : c.BrokenOff o e j) : Balks c o n e j

theorem not_balks (h : ∀ m, 0 ≤ m → n - sampleLookback < m → m ≤ n → Act.Yields o (lookUp c m) fun v => ¬ OddBlock v)
    {e : Fault} {j : Journal} (hunbroken : ¬ c.BrokenOff o e j) : ¬ Balks c o n e j := by
  intro hbalks
  cases hbalks with
  | odd h0 habove hm hlooked hodd => exact (h _ h0 habove hm).ok hlooked hodd
  | broken hbroken => exact hunbroken hbroken

theorem classify_ends {request : Act Json} (way : Capability)
    (h : Act.Ends o request (fun _ => True) fun e j => e.isOwn = true ∨ c.BrokenOff o e j) :
    Act.Ends o (classify way request) (fun report => report.capability = way) (Balks c o n) := by
  unfold classify
  refine .attemptOwn_bind (h.mono (fun _ h => h) fun _ _ h => h.imp_right .broken) fun _ outcome j _ => ?_
  cases outcome <;> exact rfl

theorem traceFilter_ends (hc : c.Orderly o) :
    Act.Ends o (traceFilter c (.int n) target) (fun report => report.capability = .traceFilter) (Balks c o n) := by
  unfold traceFilter
  split
  · exact .pure rfl
  · rw [Client.traceFilter_int]
    exact classify_ends _ (.bind (hc _ _) fun _ _ => .pure trivial)

theorem traceBlock_ends (hc : c.Orderly o) :
    Act.Ends o (traceBlock c (.int n)) (fun report => report.capability = .traceBlock) (Balks c o n) := by
  unfold traceBlock
  rw [Client.traceBlock_int]
  exact classify_ends _ (.bind (hc _ _) fun _ _ => .pure trivial)

theorem sampleFrom_ends (hc : c.Orderly o) {left i : Nat} (hi : (i + left : Int) ≤ sampleLookback) :
    Act.Ends o (sampleFrom c (.int n) left i) (fun _ => True) (Balks c o n) := by
  induction left generalizing i with
  | zero => exact .pure trivial
  | succ left ih =>
    have hbelow : blockBelow (.int n) i = .ok (.int (n - i)) := rfl
    unfold sampleFrom
    rw [hbelow, Act.lift_ok_bind, Number.lt_int]
    split
    · exact .pure trivial
    rename_i hneg
    have hnonneg : 0 ≤ n - i := by simpa using hneg
    have hrest : Act.Ends o (sampleFrom c (.int n) left (i + 1)) (fun _ => True) (Balks c o n) :=
      ih (by omega)
    have hlook : Act.Ends o (lookUp c (n - i)) (fun _ => True) fun e j => e.isOwn = true ∨ Balks c o n e j :=
      (hc _ _).mono (fun _ h => h) fun _ _ h => h.imp_right .broken
    refine .attemptOwn_bind hlook fun past r j hlooked => ?_
    cases r with
    | error e => exact (Act.Ends.after_logWritten hrest).from j
    | ok v =>
      have hodd : ∀ e, sampleIn v = .error e → Balks c o n e j := fun e h =>
        .odd hnonneg (by omega) (by omega) hlooked (oddBlock_iff.mpr ⟨e, h⟩)
      rw [sampleIn_eq] at hodd
      show Act.EndsFrom o j ((liftM (firstTransaction? v) : Act (Option Json)) >>= _) _ _
      rcases hfirst : firstTransaction? v with e | _ | transaction
      · exact .fail_bind (hodd e (by rw [hfirst]; rfl))
      · exact hrest.from j
      · show Act.EndsFrom o j (liftM (hashOf transaction)) _ _
        rcases hhash : hashOf transaction with e | hash
        · refine .fail (hodd e ?_)
          rw [hfirst]
          show (hashOf transaction).map some = _
          rw [hhash]
          rfl
        · exact Act.Ends.from (.pure trivial) j

theorem sampleTransaction_ends (hc : c.Orderly o) :
    Act.Ends o (sampleTransaction c (.int n) (.int sampleLookback)) (fun _ => True) (Balks c o n) :=
  sampleFrom_ends hc (show ((0 : Nat) + (5 : Nat) : Int) ≤ sampleLookback by decide)

theorem traceTransaction_ends (hc : c.Orderly o) :
    Act.Ends o (traceTransaction c (.int n)) (fun report => report.capability = .traceTransaction)
      (Balks c o n) := by
  unfold traceTransaction
  refine .bind (sampleTransaction_ends hc) fun hash _ => ?_
  split
  · exact .pure rfl
  · exact classify_ends _ (.bind (hc _ _) fun _ _ => .pure trivial)

theorem ranked_ends (hc : c.Orderly o) : List.Forall₂
    (fun probe way => Act.Ends o probe (fun report => report.capability = way) (Balks c o n))
    (ranked c (.int n) target) [.traceFilter, .traceBlock, .traceTransaction] :=
  .cons (traceFilter_ends hc) (.cons (traceBlock_ends hc) (.cons (traceTransaction_ends hc) .nil))

theorem mapEach_reports {R : Capability → ProbeReport → Prop} {probes : List (Act ProbeReport)}
    {ways : List Capability} (h : List.Forall₂ (fun probe way => Act.Ends o probe (R way) Q) probes ways) :
    Act.Ends o (Act.mapEach probes id) (List.Forall₂ R ways) Q := by
  induction h with
  | nil => exact .pure .nil
  | cons hprobe _ ih =>
    exact Act.Ends.bind hprobe fun report hreport => Act.Ends.bind ih fun reports hreports =>
      .pure (.cons hreport hreports)

/-- **All probes** report, best way first. -/
theorem all_ends (hc : c.Orderly o) : Act.Ends o (all c (.int n) target)
    (fun reports => reports.map (·.capability) = [.traceFilter, .traceBlock, .traceTransaction])
    (Balks c o n) := by
  refine (mapEach_reports (ranked_ends hc)).imp fun reports h => ?_
  exact (Fetcher.forall₂_map_eq.mp (h.flip.imp fun _ _ heq => heq.symm)).symm

/-- The probe reported so, from some journal. -/
def Reports (o : Outside) (probe : Act ProbeReport) (p : ProbeReport → Prop) : Prop :=
  ∃ past report, (probe o past).1 = .ok report ∧ p report

/-- What is settled on is the way of a probe that reported it supported; direct calls only is what is
left when no probe did. -/
def SettledOn (o : Outside) (probes : List (Act ProbeReport)) (way : Capability) : Prop :=
  (∃ probe ∈ probes, Reports o probe fun report => report.status = .supported ∧ report.capability = way) ∨
    way = .directCallsOnly ∧ ∀ probe ∈ probes, Reports o probe fun report => report.status ≠ .supported

theorem firstSupported_ends {probes : List (Act ProbeReport)}
    (h : ∀ probe ∈ probes, Act.Ends o probe (fun _ => True) Q) :
    Act.Ends o (firstSupported probes) (SettledOn o probes) Q := by
  induction probes with
  | nil => exact .after_log (.pure (.inr ⟨rfl, by simp⟩))
  | cons probe rest ih =>
    have hrest := ih fun probe hmem => h probe (List.mem_cons_of_mem _ hmem)
    unfold firstSupported
    refine .bind ((h probe List.mem_cons_self).and_yields Act.Yields.returned) fun report hreport => ?_
    obtain ⟨-, past, hpast⟩ := hreport
    split
    · rename_i hsupported
      refine .after_log (.pure (.inl ⟨probe, List.mem_cons_self, past, report, hpast, ?_, rfl⟩))
      exact beq_iff_eq.mp hsupported
    · rename_i hnot
      have hnext : Act.Ends o (firstSupported rest) (SettledOn o (probe :: rest)) Q := by
        refine hrest.imp fun way hway => ?_
        rcases hway with ⟨probe', hmem, hreports⟩ | ⟨hway, hreports⟩
        · exact .inl ⟨probe', List.mem_cons_of_mem _ hmem, hreports⟩
        · refine .inr ⟨hway, List.forall_mem_cons.mpr ⟨⟨past, report, hpast, ?_⟩, hreports⟩⟩
          simpa using hnot
      refine .after_log ?_
      dsimp only
      split
      · exact .after_log hnext
      · exact hnext

theorem select_ends (hc : c.Orderly o) :
    Act.Ends o (select c (.int n) target) (SettledOn o (ranked c (.int n) target)) (Balks c o n) := by
  refine firstSupported_ends fun probe hprobe => ?_
  obtain ⟨way, -, hends⟩ := exists_of_forall₂ (ranked_ends hc) hprobe
  exact hends.imp fun _ _ => trivial

/-! ## A block that probing always balks at -/

/-- The block is always given, and always odd. -/
def AlwaysOdd (c : Client) (o : Outside) (n : Int) : Prop := Act.Ensures o (lookUp c n) OddBlock

theorem sampleFrom_fails (h0 : 0 ≤ n) (hodd : AlwaysOdd c o n) (left : Nat) :
    Act.Ends o (sampleFrom c (.int n) (left + 1) 0) (fun _ => False) fun _ _ => True := by
  have hbelow : blockBelow (.int n) 0 = .ok (.int n) := congrArg (fun m => Except.ok (Number.int m)) (Int.sub_zero n)
  unfold sampleFrom
  rw [hbelow, Act.lift_ok_bind, Number.lt_int, if_neg (by simpa using h0)]
  refine .bind (Act.Ends.attemptOwn_ok hodd.ends) fun looked hlooked => ?_
  obtain ⟨v, rfl, hv⟩ := hlooked
  obtain ⟨e, he⟩ := oddBlock_iff.mp hv
  rw [sampleIn_eq] at he
  show Act.Ends o ((liftM (firstTransaction? v) : Act (Option Json)) >>= _) _ _
  rcases hfirst : firstTransaction? v with e' | _ | transaction
  · exact fun _ => trivial
  · rw [hfirst] at he
    cases he
  · show Act.Ends o (liftM (hashOf transaction)) _ _
    rcases hhash : hashOf transaction with e' | hash
    · exact fun _ => trivial
    · rw [hfirst] at he
      simp [bind, Except.bind, hhash, Except.map] at he

theorem traceTransaction_fails (h0 : 0 ≤ n) (hodd : AlwaysOdd c o n) :
    Act.Ends o (traceTransaction c (.int n)) (fun _ => False) fun _ _ => True :=
  .bind (sampleFrom_fails h0 hodd 4) fun _ h => h.elim

theorem all_fails (h0 : 0 ≤ n) (hodd : AlwaysOdd c o n) :
    Act.Ends o (all c (.int n) target) (fun _ => False) fun _ _ => True := by
  unfold all ranked
  refine Act.Ends.bind .any fun _ _ => Act.Ends.bind (P := fun _ => False) ?_ fun _ h => h.elim
  refine Act.Ends.bind .any fun _ _ => Act.Ends.bind (P := fun _ => False) ?_ fun _ h => h.elim
  exact Act.Ends.bind (traceTransaction_fails h0 hodd) fun _ h => h.elim

/-- Nothing is settled on where no probe before the failing one reports its way supported. -/
theorem firstSupported_fails (probes : List (Act ProbeReport)) {last : Act ProbeReport}
    (h : ∀ probe ∈ probes, Act.Yields o probe fun report => report.status ≠ .supported)
    (hlast : Act.Ends o last (fun _ => False) fun _ _ => True) :
    Act.Ends o (firstSupported (probes ++ [last])) (fun _ => False) fun _ _ => True := by
  induction probes with
  | nil => exact .bind hlast fun _ h => h.elim
  | cons probe rest ih =>
    have hrest := ih fun probe hmem => h probe (List.mem_cons_of_mem _ hmem)
    rw [List.cons_append]
    unfold firstSupported
    refine .bind (h probe List.mem_cons_self) fun report hreport => ?_
    rw [if_neg (by simpa using hreport)]
    refine .after_log ?_
    dsimp only
    split
    · exact .after_log hrest
    · exact hrest

/-! ## An endpoint that is not reached -/

theorem classify_fails {request : Act Json} (way : Capability)
    (h : Act.Ends o request (fun _ => False) fun e _ => e.isOwn = true) :
    Act.Ends o (classify way request) (fun report => report.capability = way ∧ report.status ≠ .supported) Q := by
  unfold classify
  refine .bind (Act.Ends.attemptOwn_error h) fun outcome houtcome => ?_
  obtain ⟨e, rfl⟩ := houtcome
  refine .pure ⟨rfl, ?_⟩
  dsimp only
  split <;> simp

/-- Every call fails. -/
def Unreached (c : Client) (o : Outside) : Prop := ∀ method params, c.Fails o method params

theorem Unreached.orderly (h : Unreached c o) : c.Orderly o := fun method params =>
  (h method params).mono (fun _ hfalse => hfalse.elim) fun _ _ hown => .inl hown

theorem Unreached.not_balks (h : Unreached c o) {e : Fault} {j : Journal} : ¬ Balks c o n e j := by
  refine Probe.not_balks (fun _ _ _ _ => (h _ _).mono (fun _ hfalse => hfalse.elim) fun _ _ _ => trivial) ?_
  intro hbroken
  cases hbroken with
  | waiting hcall => cases (h _ _).error hcall

theorem Unreached.ranked (h : Unreached c o) (target : Json) : List.Forall₂ (fun probe way =>
      Act.Ends o probe (fun report => report.capability = way ∧ report.status ≠ .supported) fun _ _ => False)
    (ranked c (.int n) target) [.traceFilter, .traceBlock, .traceTransaction] := by
  have hrequest : ∀ way method params w, Act.Ends o
      (classify way (do return (← c.call method params).orElse w))
      (fun report => report.capability = way ∧ report.status ≠ .supported) fun _ _ => False :=
    fun way method params w => classify_fails way (h method params).orElse
  refine .cons ?_ (.cons ?_ (.cons ?_ .nil))
  · unfold traceFilter
    split
    · exact .pure ⟨rfl, by simp⟩
    · exact hrequest _ _ _ _
  · exact hrequest _ _ _ _
  · have hsample : Act.Ends o (sampleTransaction c (.int n) (.int sampleLookback)) (fun _ => True)
        fun _ _ => False :=
      (sampleTransaction_ends h.orderly).mono (fun _ h => h)
        fun _ _ hbalks => h.not_balks hbalks
    unfold traceTransaction
    refine .bind hsample fun hash _ => ?_
    split
    · exact .pure ⟨rfl, by simp⟩
    · exact hrequest _ _ _ _

/-- **Where nothing is reached**, every method still has its report, none of them is supported, and direct
calls only is what is settled on. -/
theorem unreached_settles (h : Unreached c o) :
    Act.Ensures o (all c (.int n) target) (List.Forall₂
      (fun way report => report.capability = way ∧ report.status ≠ .supported)
      [.traceFilter, .traceBlock, .traceTransaction]) ∧
    Act.Ensures o (select c (.int n) target) (· = .directCallsOnly) := by
  refine ⟨(mapEach_reports (h.ranked target)).ensures, Act.Ends.ensures ?_⟩
  refine (select_ends h.orderly).mono (fun way hway => ?_) fun _ _ hbalks => h.not_balks hbalks
  rcases hway with ⟨probe, hprobe, past, report, hpast, hsupported, -⟩ | ⟨hway, -⟩
  · obtain ⟨_, -, hends⟩ := exists_of_forall₂ (h.ranked target) hprobe
    exact absurd hsupported (hends.ok (Prod.ext hpast rfl)).2
  · exact hway

end Probe

/-! ## The first fetch -/

namespace Fetcher

variable {f : Fetcher} {o : Outside}

/-- A fetcher whose way of tracing is not fixed has it settled by a fetch, unless probing balks. -/
theorem run_settles (hc : f.client.Orderly o) (hnone : f.chosen? = none) {a b : Int} (h0 : 0 ≤ a) (hab : a ≤ b) :
    Act.Ensures o (f.run (.int a) (.int b)) fun p =>
      (∃ way, Probe.SettledOn o (Probe.ranked f.client (.int a) (.str f.target)) way ∧
        p.1 = { f with chosen? := some way }) ∨
      ∃ e j, p = (f, .error e) ∧ Probe.Balks f.client o a e j := by
  refine Act.Ends.ensures ?_
  unfold run
  rw [rangeOf_int h0 hab]
  refine .bind (.now (fun _ => True) fun _ => trivial) fun started _ => ?_
  have hselect : Act.Ends o (f.capabilityFor (.int a)).attempt (fun r =>
      (∃ way, r = .ok way ∧ Probe.SettledOn o (Probe.ranked f.client (.int a) (.str f.target)) way) ∨
        ∃ e j, r = .error e ∧ Probe.Balks f.client o a e j) fun _ _ => False := by
    unfold capabilityFor
    rw [hnone]
    exact .attempt ((Probe.select_ends hc).mono (fun way h => .inl ⟨way, rfl, h⟩) fun e j h => .inr ⟨e, j, rfl, h⟩)
  refine .bind hselect fun r hr => ?_
  rcases hr with ⟨way, rfl, hway⟩ | ⟨e, j, rfl, hbalks⟩
  · exact .bind .attempt_any fun fetched _ => .pure (.inl ⟨way, hway, rfl⟩)
  · exact .pure (.inr ⟨e, j, rfl, hbalks⟩)

end Fetcher

namespace Probe

/-! ## A block without a hash -/

/-- A block whose only transaction is an object without members. -/
def hashlessBlock : Json := .obj [("number", .str "0x1"), ("transactions", .arr [.obj []])]

/-- Every request for a block is answered with this one, and every other one with an error. -/
def hashlessEndpoint : Outside := Client.answering fun request =>
  if request.method == "eth_getBlockByNumber" then some hashlessBlock else none

theorem alwaysOdd_hashless (n : Int) : AlwaysOdd Sample.client hashlessEndpoint n := by
  have hgets : Sample.client.Gets hashlessEndpoint "eth_getBlockByNumber" (.arr [.str (hexNumeral n), .bool false])
      hashlessBlock := Client.gets_answering (k := 4) rfl rfl
  intro j
  obtain ⟨_, hv, rfl⟩ := hgets j
  exact ⟨_, hv, .noHash rfl rfl⟩

/-- **Probing need not come to an end.** The endpoint answers every request in time, and neither are
all methods reported on, nor is a way of tracing settled on. -/
theorem probing_of_hashlessEndpoint :
    (∀ j, ∃ e, (all Sample.client (.int 1) (.str Sample.address) hashlessEndpoint j).1 = .error e) ∧
    ∀ j, ∃ e, (select Sample.client (.int 1) (.str Sample.address) hashlessEndpoint j).1 = .error e := by
  have hodd := alwaysOdd_hashless 1
  have hfails : ∀ (method : Text) params, method ≠ "eth_getBlockByNumber" →
      Sample.client.Fails hashlessEndpoint method params := by
    intro method params hmethod
    exact Client.fails_answering (k := 4) rfl (if_neg (by simpa using hmethod))
  have hselect : Act.Ends hashlessEndpoint (select Sample.client (.int 1) (.str Sample.address)) (fun _ => False)
      fun _ _ => True := by
    have hfilter : Act.Yields hashlessEndpoint (traceFilter Sample.client (.int 1) (.str Sample.address))
        fun report => report.status ≠ .supported :=
      (classify_fails .traceFilter (hfails _ _ (by decide)).orElse).imp fun _ h => h.2
    have hblock : Act.Yields hashlessEndpoint (traceBlock Sample.client (.int 1))
        fun report => report.status ≠ .supported :=
      (classify_fails .traceBlock (hfails _ _ (by decide)).orElse).imp fun _ h => h.2
    refine firstSupported_fails [_, _] ?_ (traceTransaction_fails (by decide) hodd)
    simpa using ⟨hfilter, hblock⟩
  exact ⟨(all_fails (by decide) hodd).fails, hselect.fails⟩

/-- **How far probing comes.** Over HTTP, whatever is answered, there is a report for every method, best
way first, and a way of tracing is settled on, by a probe or by the first fetch: that of a probe which
reported it supported, or direct calls only if none did. Probing stops short of this only at an odd
block among those it looks for a transaction in, or at a wait that the endpoint asks for and that is too
long to be made; and if the given block is always odd, there never are reports for all methods. -/
theorem probing_ends {c : Client} {o : Outside} (hc : c.Proper) (ho : o.OverHttp) (n : Int) (target : Json) :
    Act.Ends o (all c (.int n) target)
      (fun reports => reports.map (·.capability) = [.traceFilter, .traceBlock, .traceTransaction])
      (Balks c o n) ∧
    Act.Ends o (select c (.int n) target) (SettledOn o (ranked c (.int n) target)) (Balks c o n) ∧
    (∀ f : Fetcher, f.client = c → f.chosen? = none → ∀ last, 0 ≤ n → n ≤ last →
      Act.Ensures o (f.run (.int n) (.int last)) fun p =>
        (∃ way, SettledOn o (ranked c (.int n) (.str f.target)) way ∧ p.1 = { f with chosen? := some way }) ∨
        ∃ e j, p = (f, .error e) ∧ Balks c o n e j) ∧
    (0 ≤ n → AlwaysOdd c o n → ∀ j, ∃ e, (all c (.int n) target o j).1 = .error e) := by
  have horderly := hc.orderly ho
  refine ⟨all_ends horderly, select_ends horderly, ?_, fun h0 hodd => (all_fails h0 hodd).fails⟩
  intro f hf hnone last h0 hlast
  subst hf
  exact f.run_settles horderly hnone h0 hlast

theorem proper_sample : Sample.client.Proper := ⟨⟨4, rfl⟩, ⟨_, rfl⟩⟩

theorem overHttp_hashless : hashlessEndpoint.OverHttp := Client.overHttp_answering _

/-- Block one is always given without a hash. -/
theorem probing_ends_hashless :
    (Sample.client.Proper ∧ hashlessEndpoint.OverHttp) ∧
    Act.Ends hashlessEndpoint (all Sample.client (.int 1) .null)
      (fun reports => reports.map (·.capability) = [.traceFilter, .traceBlock, .traceTransaction])
      (Balks Sample.client hashlessEndpoint 1) ∧
    ∀ j, ∃ e, (all Sample.client (.int 1) .null hashlessEndpoint j).1 = .error e := by
  have h := probing_ends proper_sample overHttp_hashless 1 .null
  exact ⟨⟨proper_sample, overHttp_hashless⟩, h.1, h.2.2.2 (by decide) (alwaysOdd_hashless 1)⟩

end Probe
end AssertionReplay
