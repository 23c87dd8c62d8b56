/-
What a replay costs its sender.

Right before an execution the host is asked for the balance of the sender and
for the base fee, and the fee is lowered if the balance does not pay for all
the gas at this fee. A host keeps a base fee (`KeepsFee`) if it tells the one
that is in force, and setting it puts another one in force. With such a host
every execution of a replay meets the lesser of the fee that was told and the
largest one that the balance pays for (`Fits`), in both passes
(`replays_affordable`), and the same holds of all replays of a run
(`run_affordable`).

`Act.Obeys` is a triple over the calls that were made before: each call is
made only where a rule allows it, so that nothing need be known of what comes
after a call that raises.
-/
import AssertionReplay.Proofs.Containment

namespace AssertionReplay

open Text

/-! ## Calls where they are allowed -/

/-- Which call may be made after which others. -/
abbrev CallRule := (past : List HostCall) → HostCall → Prop

/-- Each of the calls, made after those of the past, is allowed where it stands. -/
def Allowed (P : CallRule) : (past calls : List HostCall) → Prop
  | _, [] => True
  | past, call :: calls => P past call ∧ Allowed P (past ++ [call]) calls

namespace Allowed

variable {P Q : CallRule} {past calls more : List HostCall}

theorem append (h : Allowed P past calls) (hmore : Allowed P (past ++ calls) more) :
    Allowed P past (calls ++ more) := by
  induction calls generalizing past with
  | nil => simpa using hmore
  | cons call calls ih => exact ⟨h.1, ih h.2 (by simpa using hmore)⟩

theorem mono (h : Allowed P past calls) (hPQ : ∀ past call, P past call → Q past call) : Allowed Q past calls := by
  induction calls generalizing past with
  | nil => trivial
  | cons call calls ih => exact ⟨hPQ _ _ h.1, ih h.2⟩

theorem rule {before after : List HostCall} {call : HostCall}
    (h : Allowed P past (before ++ call :: after)) : P (past ++ before) call := by
  induction before generalizing past with
  | nil => simpa using h.1
  | cons first before ih => simpa using ih h.2

end Allowed

namespace Act

/-- After calls that satisfy `pre`, each call of the action is allowed where it is made, and a value that is
returned satisfies `post` together with all calls until then. -/
def Obeys (o : Outside) (P : CallRule) (pre : List HostCall → Prop) (x : Act α)
    (post : α → List HostCall → Prop) : Prop :=
  ∀ j, pre j.hostCalls → ∃ calls, (x o j).2.hostCalls = j.hostCalls ++ calls ∧ Allowed P j.hostCalls calls ∧
    ∀ a, (x o j).1 = .ok a → post a (j.hostCalls ++ calls)

/-- Nothing is asked of the past, and nothing is told of the end. -/
abbrev ObeysAlways (o : Outside) (P : CallRule) (x : Act α) : Prop := Obeys o P (fun _ => True) x fun _ _ => True

variable {o : Outside} {P Q : CallRule} {pre : List HostCall → Prop} {x : Act α}
  {post : α → List HostCall → Prop}

theorem Obeys.of_same (hcalls : ∀ j, (x o j).2.hostCalls = j.hostCalls)
    (hvalue : ∀ j a, pre j.hostCalls → (x o j).1 = .ok a → post a j.hostCalls) : Obeys o P pre x post := by
  intro j hpre
  refine ⟨[], by simp [hcalls], trivial, fun a ha => ?_⟩
  simpa using hvalue j a hpre ha

theorem Obeys.pure {a : α} (h : ∀ past, pre past → post a past) : Obeys o P pre (Pure.pure a : Act α) post :=
  .of_same (fun _ => rfl) fun j b hpre hb => by cases hb; exact h _ hpre

theorem Obeys.lift {r : Except Fault α} (h : ∀ a past, r = .ok a → pre past → post a past) :
    Obeys o P pre (liftM r : Act α) post :=
  .of_same (fun j => by rw [lift_apply]) fun j a hpre ha => h a _ (by rwa [lift_apply] at ha) hpre

theorem Obeys.logWritten {level : Level} {cause? : Option Fault} {text : Except Fault Text} :
    Obeys o P pre (Act.logWritten level cause? text) fun _ past => pre past := by
  refine .of_same (fun j => ?_) fun j a hpre _ => hpre
  cases text <;> simp [Act.logWritten, Act.record, Act.pure, Journal.hostCalls]

theorem Obeys.log {level : Level} {text : Text} : Obeys o P pre (Act.log level text) fun _ past => pre past := by
  rw [log_eq_logWritten]
  exact .logWritten

theorem Obeys.logFault {level : Level} {text : Text} {cause : Fault} :
    Obeys o P pre (Act.logFault level text cause) fun _ past => pre past := by
  rw [logFault_eq_logWritten]
  exact .logWritten

/-- A call that is allowed after what is known of the past, and what is known of it once it was answered. -/
theorem Obeys.host {call : HostCall} {post : call.Answer → List HostCall → Prop}
    (hcall : ∀ past, pre past → P past call)
    (hanswer : ∀ past a, pre past → o.host past call = .ok a → post a (past ++ [call])) :
    Obeys o P pre (Act.host call) post := by
  intro j hpre
  refine ⟨[call], Journal.hostCalls_append _ _, ⟨hcall _ hpre, trivial⟩, fun a ha => ?_⟩
  exact hanswer _ a hpre ha

theorem Obeys.bind {f : α → Act β} {M : α → List HostCall → Prop} {post : β → List HostCall → Prop}
    (hx : Obeys o P pre x M) (hf : ∀ a, Obeys o P (M a) (f a) post) : Obeys o P pre (x >>= f) post := by
  intro j hpre
  obtain ⟨calls, hcalls, hallowed, hmid⟩ := hx j hpre
  rcases h : x o j with ⟨e | a, j₁⟩ <;> rw [h] at hcalls hmid
  · -- The calls before a fault are all that there are.
    refine ⟨calls, by rw [bind_apply_of_error h]; exact hcalls, hallowed, fun b hb => ?_⟩
    rw [bind_apply_of_error h] at hb
    cases hb
  · have hcalls₁ : j₁.hostCalls = j.hostCalls ++ calls := hcalls
    obtain ⟨more, hmore, hallowed', hpost⟩ := hf a j₁ (by rw [hcalls₁]; exact hmid a rfl)
    rw [hcalls₁] at hmore hallowed' hpost
    refine ⟨calls ++ more, by rw [bind_apply_of_ok h, hmore, List.append_assoc], hallowed.append hallowed', ?_⟩
    intro b hb
    rw [bind_apply_of_ok h] at hb
    rw [← List.append_assoc]
    exact hpost b hb

theorem Obeys.ite {p : Prop} [Decidable p] {y : Act α} (hx : p → Obeys o P pre x post)
    (hy : ¬ p → Obeys o P pre y post) : Obeys o P pre (if p then x else y) post := by
  split
  · exact hx ‹_›
  · exact hy ‹_›

theorem ObeysAlways.mono (h : ObeysAlways o P x) (hPQ : ∀ past call, P past call → Q past call) :
    ObeysAlways o Q x := by
  intro j hj
  obtain ⟨calls, hcalls, hallowed, hend⟩ := h j hj
  exact ⟨calls, hcalls, hallowed.mono hPQ, hend⟩

theorem ObeysAlways.attempt (h : ObeysAlways o P x) : ObeysAlways o P x.attempt := by
  intro j hj
  obtain ⟨calls, hcalls, hallowed, -⟩ := h j hj
  exact ⟨calls, hcalls, hallowed, fun _ _ => trivial⟩

end Act

/-! ## The base fee -/

/-- The base fee that is in force after some calls: the host tells it, being asked leaves it as it is, and setting
it puts another one in force. -/
structure KeepsFee (o : Outside) (feeAfter : List HostCall → Int) : Prop where
  told : ∀ past (fee : Int), o.host past .baseFee = .ok fee → fee = feeAfter past
  asked : ∀ past, feeAfter (past ++ [.baseFee]) = feeAfter past
  set : ∀ past fee, (∃ a, o.host past (.setBaseFee fee) = .ok a) → feeAfter (past ++ [.setBaseFee fee]) = fee

namespace Replay

variable {o : Outside} {c : Config} {r : Record} {classify : Classifier} {feeAfter : List HostCall → Int}

/-- No record is replayed without gas, so that what a balance pays for is never asked of a limit of zero. -/
theorem effectiveGasLimit_ne_zero (r : Record) : r.effectiveGasLimit.toInt ≠ 0 := by
  unfold Record.effectiveGasLimit
  split
  · rename_i h
    simpa using h
  · decide

theorem effectiveGasLimit_eq (r : Record) :
    r.effectiveGasLimit.toInt = if r.gasLimit.toInt = 0 then Record.defaultGasLimit else r.gasLimit.toInt := by
  unfold Record.effectiveGasLimit
  by_cases h : r.gasLimit.toInt = 0
  · simp only [h, bne_self_eq_false, Bool.false_eq_true, if_false, if_true]
    rfl
  · simp [h]

theorem effectiveGasLimit_pos (h : 0 ≤ r.gasLimit.toInt) : 0 < r.effectiveGasLimit.toInt := by
  have hne := effectiveGasLimit_ne_zero r
  have hlimit : Record.defaultGasLimit = 16777216 := by decide
  rw [effectiveGasLimit_eq] at hne ⊢
  split <;> omega

/-- Of the fee that was told and the largest one at which the balance pays for the gas, the fee is the lesser. -/
structure Fits (gas balance told fee : Int) : Prop where
  eq_min : fee = min told (balance.fdiv gas)
  paid : gas * fee ≤ balance
  not_raised : fee ≤ told
  largest : fee < told → balance < gas * (fee + 1)
  nonneg : 0 ≤ balance → 0 ≤ told → 0 ≤ fee

/-- The largest fee at which a balance pays for the gas. -/
theorem fdiv_paid {gas : Int} (hgas : 0 < gas) (balance : Int) :
    gas * balance.fdiv gas ≤ balance ∧ balance < gas * (balance.fdiv gas + 1) := by
  rw [Int.fdiv_eq_ediv_of_nonneg _ (by omega), Int.mul_comm gas, Int.mul_comm gas]
  exact ⟨Int.ediv_mul_le _ (by omega), Int.lt_ediv_add_one_mul_self _ hgas⟩

theorem fdiv_lt_iff {gas : Int} (hgas : 0 < gas) {balance told : Int} :
    balance.fdiv gas < told ↔ balance < gas * told := by
  rw [Int.fdiv_eq_ediv_of_nonneg _ (by omega), Int.mul_comm]
  exact Int.ediv_lt_iff_lt_mul hgas

theorem fits_min {gas : Int} (hgas : 0 < gas) (balance told : Int) :
    Fits gas balance told (min told (balance.fdiv gas)) := by
  obtain ⟨hpaid, hlargest⟩ := fdiv_paid hgas balance
  rcases Int.le_total told (balance.fdiv gas) with h | h
  · have hmin : min told (balance.fdiv gas) = told := by omega
    have hle : gas * told ≤ gas * balance.fdiv gas := Int.mul_le_mul_of_nonneg_left h (by omega)
    exact ⟨rfl, by rw [hmin]; omega, by omega, by omega, by omega⟩
  · have hmin : min told (balance.fdiv gas) = balance.fdiv gas := by omega
    refine ⟨rfl, by rwa [hmin], by omega, fun _ => by rwa [hmin], fun hbalance _ => ?_⟩
    rw [hmin]
    exact Int.fdiv_nonneg hbalance (by omega)

/-- The host was last asked for the balance of a sender, and then for the base fee, and told both. -/
structure Quoted (o : Outside) (feeAfter : List HostCall → Int) (sender : Text) (past : List HostCall)
    (balance told : Int) : Prop where
  asked : ∃ before, past = before ++ [.balanceOf sender, .baseFee] ∧
    o.host before (.balanceOf sender) = .ok balance ∧
    o.host (before ++ [.balanceOf sender]) .baseFee = .ok told ∧ told = feeAfter (before ++ [.balanceOf sender])
  current : feeAfter past = told

/-- The base fee fits what the host told last; in between, it was set exactly if it had to drop. -/
def Capped (o : Outside) (feeAfter : List HostCall → Int) (sender : Text) (gas : Int) (past : List HostCall) : Prop :=
  ∃ quoted balance told, Quoted o feeAfter sender quoted balance told ∧ Fits gas balance told (feeAfter past) ∧
    past = quoted ++ if balance < gas * told then [.setBaseFee (feeAfter past)] else []

/-- Where a replay of the record may execute, and where it may set the base fee. An execution has the gas limit of
the record, and comes once the fee is capped for it. The fee is set only right after the host told one that the
balance does not pay for, to the largest one that it pays for. -/
def Affordable (o : Outside) (feeAfter : List HostCall → Int) (r : Record) : CallRule
  | past, .execute e => e.gasLimit = r.effectiveGasLimit ∧ e.sender = r.sender ∧
      Capped o feeAfter r.sender e.gasLimit.toInt past
  | past, .setBaseFee fee => ∃ balance told, Quoted o feeAfter r.sender past balance told ∧
      balance < r.effectiveGasLimit.toInt * told ∧ fee < told ∧ Fits r.effectiveGasLimit.toInt balance told fee
  | _, _ => True

open Act

theorem capBaseFee_obeys (hfee : KeepsFee o feeAfter) (hgas : 0 ≤ r.gasLimit.toInt) :
    Obeys o (Affordable o feeAfter r) (fun _ => True) (capBaseFee r) fun _ past =>
      Capped o feeAfter r.sender r.effectiveGasLimit.toInt past := by
  have hpos := effectiveGasLimit_pos hgas
  unfold capBaseFee
  refine Obeys.bind (M := fun (balance : Int) past => ∃ before, past = before ++ [.balanceOf r.sender] ∧
    o.host before (.balanceOf r.sender) = .ok balance)
    (.host (fun _ _ => trivial) fun before a _ ha => ⟨before, rfl, ha⟩) fun (balance : Int) => ?_
  refine Obeys.bind (M := fun (told : Int) past => Quoted o feeAfter r.sender past balance told)
    (.host (fun _ _ => trivial) ?_) fun (told : Int) => ?_
  · rintro _ (told : Int) ⟨before, rfl, hbalance⟩ htold
    have hcurrent := hfee.told _ _ htold
    refine ⟨⟨before, by simp, hbalance, htold, hcurrent⟩, ?_⟩
    rw [hfee.asked, hcurrent]
  have hfits := fits_min hpos balance told
  refine .ite (fun hlow => ?_) fun hlow => ?_
  · -- The fee that was told still stands where the new one is set, and not after that.
    have hmin : min told (balance.fdiv r.effectiveGasLimit.toInt) = balance.fdiv r.effectiveGasLimit.toInt := by omega
    rw [hmin] at hfits
    refine Obeys.bind Obeys.log fun _ => .host ?_ ?_
    · exact fun past hquoted => ⟨balance, told, hquoted, (fdiv_lt_iff hpos).mp hlow, hlow, hfits⟩
    · intro past a hquoted hset
      have hnow := hfee.set _ _ ⟨a, hset⟩
      refine ⟨past, balance, told, hquoted, by rwa [hnow], ?_⟩
      rw [if_pos ((fdiv_lt_iff hpos).mp hlow), hnow]
  · have hmin : min told (balance.fdiv r.effectiveGasLimit.toInt) = told := by omega
    rw [hmin] at hfits
    refine .pure fun past hquoted => ⟨past, balance, told, hquoted, by rwa [hquoted.current], ?_⟩
    rw [if_neg (by rwa [← fdiv_lt_iff hpos]), List.append_nil]

/-! ## A replay -/

theorem fork_obeys (c : Config) (r r' : Record) : ObeysAlways o (Affordable o feeAfter r) (fork c r') := by
  unfold fork
  exact .ite (fun _ => .host (fun _ _ => trivial) fun _ _ _ _ => trivial)
    fun _ => .host (fun _ _ => trivial) fun _ _ _ _ => trivial

theorem attach_obeys (c : Config) (r : Record) : ObeysAlways o (Affordable o feeAfter r) (attach c) :=
  Obeys.bind (M := fun _ _ => True) (.lift fun _ _ _ _ => trivial)
    fun _ => .host (fun _ _ => trivial) fun _ _ _ _ => trivial

section

variable (hfee : KeepsFee o feeAfter) (hgas : 0 ≤ r.gasLimit.toInt)

include hfee hgas

theorem cappedExecution_obeys (traced : Bool) :
    ObeysAlways o (Affordable o feeAfter r) (do capBaseFee r; execute r traced) :=
  (capBaseFee_obeys hfee hgas).bind fun _ =>
    .host (fun _ hcapped => ⟨rfl, rfl, hcapped⟩) fun _ _ _ _ => trivial

theorem assertedPass_obeys (c : Config) : ObeysAlways o (Affordable o feeAfter r) (assertedPass c r) :=
  (fork_obeys c r r).bind fun _ => (attach_obeys c r).bind fun _ => cappedExecution_obeys hfee hgas false

theorem tracedPass_obeys (c : Config) : ObeysAlways o (Affordable o feeAfter r) (tracedPass c r) :=
  (fork_obeys c r r).bind fun _ => cappedExecution_obeys hfee hgas true

/-- **Whatever a replay executes, its sender can afford**, and so for its trace. -/
theorem validate_obeys (c : Config) (classify : Classifier) :
    ObeysAlways o (Affordable o feeAfter r) (validate c classify r) := by
  have hretrace : ObeysAlways o (Affordable o feeAfter r) (retrace c r) := by
    refine Obeys.bind Obeys.log fun _ => (tracedPass_obeys hfee hgas c).attempt.bind fun ended => ?_
    cases ended with
    | error e => exact .logFault
    | ok result => exact .log
  refine (assertedPass_obeys hfee hgas c).attempt.bind fun ended => ?_
  cases ended with
  | error e =>
    exact .ite (fun _ => Obeys.logFault.bind fun _ => .pure fun _ _ => trivial)
      fun _ => Obeys.log.bind fun _ => .pure fun _ _ => trivial
  | ok result =>
    refine Obeys.bind (M := fun _ _ => True) (.lift fun _ _ _ _ => trivial) fun message => ?_
    exact .ite (fun _ => hretrace.bind fun _ => .pure fun _ _ => trivial) fun _ => .pure fun _ _ => trivial

end

theorem not_raised_of_willing (ho : ∀ past call, ∃ a, o.host past call = .ok a) {past calls : List HostCall} :
    ¬ ∃ x ∈ o.exchanges past calls, x.Raised := by
  intro ⟨x, hx, e, he⟩
  obtain ⟨before, hanswer⟩ := Outside.of_mem_exchanges hx
  obtain ⟨a, ha⟩ := ho before x.call
  cases he.symm.trans (hanswer.trans ha)

theorem mem_calls_of_pass {past calls : List HostCall} {attached : List Exchange} {traced : Bool} {balance fee : Int}
    {result : CallResult} (h : o.exchanges past calls = passCalls c r attached traced balance fee result) :
    .execute (r.execution traced) ∈ calls := by
  rw [← o.map_call_exchanges past calls, h]
  simp [passCalls, Exchange.answered]

/-- With a host that carries out every call, and code to attach, both passes get to their executions. -/
theorem executions_of_willing (ho : ∀ past call, ∃ a, o.host past call = .ok a) {ended : Except Fault CallResult}
    {past first more : List HostCall} (hcode : ∃ code, c.creationCode = .ok code)
    (hfirst : FirstPass c r ended (o.exchanges past first))
    (hmore : Followed c r (verdictOn classify ended) (o.exchanges (past ++ first) more)) :
    .execute (r.execution false) ∈ first ∧
      (Retraces c (verdictOn classify ended) → .execute (r.execution true) ∈ more) := by
  constructor
  · generalize hxs : o.exchanges past first = xs at hfirst
    cases hfirst with
    | whole h =>
      obtain ⟨code, balance, fee, -, hpass⟩ := h
      exact mem_calls_of_pass (hxs.trans hpass)
    | raised h => exact absurd (hxs ▸ h.raised) (not_raised_of_willing ho)
    | unjoinable hnone _ =>
      obtain ⟨code, hcode⟩ := hcode
      cases hcode.symm.trans hnone
  · intro hyes
    generalize hxs : o.exchanges (past ++ first) more = xs at hmore
    cases hmore with
    | judged hno => exact absurd hyes hno
    | retraced _ hpass =>
      rcases hpass with ⟨trace, balance, fee, hpass⟩ | hcut
      · exact mem_calls_of_pass (hxs.trans hpass)
      · exact absurd (hxs ▸ hcut.raised) (not_raised_of_willing ho)

/-- **A replay is always affordable.** Let the record have no negative gas limit, and the host keep a base fee.
Then no record is replayed without gas, and whatever the host answers or raises, in the pass that counts and in the
one for the trace, an execution meets the lesser of the base fee before and the largest one that the sender's
balance pays for at the gas limit of the execution; the fee is never raised, and it is set only if it has to drop.
Each pass gets to its execution with a host that carries out every call. -/
theorem replays_affordable (hfee : KeepsFee o feeAfter) (c : Config) (classify : Classifier)
    (hgas : 0 ≤ r.gasLimit.toInt) (j : Journal) :
    (∀ record : Record, record.effectiveGasLimit.toInt ≠ 0) ∧
    r.effectiveGasLimit.toInt = (if r.gasLimit.toInt = 0 then Record.defaultGasLimit else r.gasLimit.toInt) ∧
    ∃ ended first more,
      (validate c classify r o j).2.hostCalls = j.hostCalls ++ (first ++ more) ∧
      FirstPass c r ended (o.exchanges j.hostCalls first) ∧
      Followed c r (verdictOn classify ended) (o.exchanges (j.hostCalls ++ first) more) ∧
      Allowed (Affordable o feeAfter r) j.hostCalls (first ++ more) ∧
      ((∀ past call, ∃ a, o.host past call = .ok a) → (∃ code, c.creationCode = .ok code) →
        .execute (r.execution false) ∈ first ∧
          (Retraces c (verdictOn classify ended) → .execute (r.execution true) ∈ more)) := by
  refine ⟨effectiveGasLimit_ne_zero, effectiveGasLimit_eq r, ?_⟩
  obtain ⟨first, hfirst, hscript⟩ := assertedPass_calls (o := o) (c := c) (r := r) j
  obtain ⟨-, more, hmore, hfollowed⟩ := validate_followed classify (Prod.eta (assertedPass c r o j)).symm
  rw [hfirst] at hmore hfollowed
  rw [List.append_assoc] at hmore
  obtain ⟨calls, hcalls, hallowed, -⟩ := validate_obeys hfee hgas c classify j trivial
  obtain rfl : calls = first ++ more := List.append_cancel_left (hcalls.symm.trans hmore)
  exact ⟨_, first, more, hmore, hscript, hfollowed, hallowed, fun ho hcode =>
    executions_of_willing ho hcode hscript hfollowed⟩

/-- The last base fee that was set, and five hundred until one is. -/
def meteredFee (past : List HostCall) : Int :=
  past.foldl (fun fee call => match call with | .setBaseFee set => set | _ => fee) 500

/-- A host with this base fee. Every sender has a million, and everything it executes fails without data. -/
def meteredHost : Outside :=
  { willingHost with
    host := fun past call =>
      match call with
      | .balanceOf _ => .ok (1000000 : Int)
      | .baseFee => .ok (meteredFee past)
      | .execute _ => .ok (⟨false, []⟩ : CallResult)
      | call => willingHost.host past call }

theorem keepsFee_meteredHost : KeepsFee meteredHost meteredFee where
  told _ _ h := (Except.ok.inj h).symm
  asked past := by simp [meteredFee]
  set past fee _ := by simp [meteredFee]

def costlyRecord : Record := { plainRecord with gasLimit := .int 100000 }

/-- At a hundred thousand of gas the fee drops from five hundred to ten, where it still is for the trace. -/
theorem replays_affordable_metered :
    KeepsFee meteredHost meteredFee ∧ 0 ≤ costlyRecord.gasLimit.toInt ∧ ∃ first between : List HostCall,
      (validate noArguments .standard costlyRecord meteredHost []).2.hostCalls =
        first ++ .execute (costlyRecord.execution false) :: (between ++ [.execute (costlyRecord.execution true)]) ∧
      first.length = 5 ∧ between.length = 3 ∧ meteredFee first = 10 ∧
      meteredFee (first ++ .execute (costlyRecord.execution false) :: between) = 10 ∧
      Affordable meteredHost meteredFee costlyRecord first (.execute (costlyRecord.execution false)) ∧
      Affordable meteredHost meteredFee costlyRecord (first ++ .execute (costlyRecord.execution false) :: between)
        (.execute (costlyRecord.execution true)) := by
  have hgas : 0 ≤ costlyRecord.gasLimit.toInt := by decide
  obtain ⟨-, -, ended, calls, more, hcalls, -, -, hallowed, -⟩ :=
    replays_affordable keepsFee_meteredHost noArguments .standard hgas []
  let first : List HostCall := [.forkByTransaction "0x01",
    .attach noArguments.target (.bytes [0x60]) noArguments.selector, .balanceOf Address.zero, .baseFee, .setBaseFee 10]
  let between : List HostCall := [.forkByTransaction "0x01", .balanceOf Address.zero, .baseFee]
  have hrun : (validate noArguments .standard costlyRecord meteredHost []).2.hostCalls =
      first ++ .execute (costlyRecord.execution false) ::
        (between ++ [.execute (costlyRecord.execution true)]) := rfl
  rw [show calls ++ more = _ from hcalls.symm.trans hrun] at hallowed
  refine ⟨keepsFee_meteredHost, hgas, first, between, hrun, rfl, rfl, rfl, rfl, hallowed.rule, ?_⟩
  rw [← List.cons_append, ← List.append_assoc] at hallowed
  exact hallowed.rule

/-! ## A run -/

section

variable (hfee : KeepsFee o feeAfter)

include hfee

theorem replayAll_obeys (c : Config) (classify : Classifier) (total position : Nat) (tally : Tally) {rs : List Record}
    (hgas : ∀ r ∈ rs, 0 ≤ r.gasLimit.toInt) :
    ObeysAlways o (fun past call => ∃ r ∈ rs, Affordable o feeAfter r past call)
      (Backtest.replayAll c classify total position tally rs) := by
  induction rs generalizing position tally with
  | nil => exact .pure fun _ _ => trivial
  | cons r rs ih =>
    obtain ⟨hr, hrs⟩ := List.forall_mem_cons.mp hgas
    have hfirst : ObeysAlways o (fun past call => ∃ r' ∈ r :: rs, Affordable o feeAfter r' past call)
        (validate c classify r) :=
      (validate_obeys hfee hr c classify).mono fun past call h => ⟨r, List.mem_cons_self, h⟩
    have hmore : ∀ past call, (∃ r' ∈ rs, Affordable o feeAfter r' past call) →
        ∃ r' ∈ r :: rs, Affordable o feeAfter r' past call := by
      intro past call h
      obtain ⟨r', hr', hcall⟩ := h
      exact ⟨r', List.mem_cons_of_mem r hr', hcall⟩
    unfold Backtest.replayAll
    refine hfirst.bind fun verdict => ?_
    refine Obeys.bind (M := fun _ _ => True) (.lift fun _ _ _ _ => trivial) fun line => ?_
    exact Obeys.log.bind fun _ => (ih _ _ hrs).mono hmore

/-- **Whatever a run executes, the senders can afford.** -/
theorem run_affordable (c : Config) (classify : Classifier) {rs : List Record}
    (hgas : ∀ r ∈ rs, 0 ≤ r.gasLimit.toInt) :
    ObeysAlways o (fun past call => ∃ r ∈ rs, Affordable o feeAfter r past call)
      (Backtest.run c classify (some rs)) := by
  have hlift : ∀ {α : Type} (x : Except Fault α),
      ObeysAlways o (fun past call => ∃ r ∈ rs, Affordable o feeAfter r past call) (liftM x : Act α) :=
    fun x => .lift fun _ _ _ _ => trivial
  have hlines : ∀ lines : List Text, ObeysAlways o (fun past call => ∃ r ∈ rs, Affordable o feeAfter r past call)
      (Act.forEach lines fun line => Act.log (Tally.lineLevel line) line) := by
    intro lines
    induction lines with
    | nil => exact .pure fun _ _ => trivial
    | cons line lines ih => exact Obeys.log.bind fun _ => ih
  unfold Backtest.run
  refine (hlift _).bind fun start => Obeys.logWritten.bind fun _ => ?_
  refine (replayAll_obeys hfee c classify _ _ _ hgas).bind fun tally => ?_
  exact Obeys.bind ((hlift _).bind hlines) fun _ => .pure fun _ _ => trivial

end

end Replay
end AssertionReplay
