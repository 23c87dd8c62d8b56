/-
Calls of an endpoint that asks to slow down.

An exchange is a number of rounds and one last post. In a round the request is
posted, the reply asks to slow down, and the client waits; the last reply
alone settles the call, unless what it says of the wait cannot be read, or
the wait is too long to be made (`Client.exchange_runs`). If no reply is of that
kind, the rounds are as many as the replies that ask to slow down, or as many
as are allowed if those are fewer, and each wait is known
(`Client.call_backs_off`).
-/
import AssertionReplay.Proofs.Transport
import Mathlib.Algebra.Order.Field.Basic
import Mathlib.Data.Rat.Cast.Order
import Mathlib.Tactic.Linarith
import Mathlib.Tactic.NormNum
import Mathlib.Tactic.Ring

namespace AssertionReplay

open Text

/-! ## Seconds -/

namespace Binary64

/-- The number as a quotient; none for an infinity and for what is no number. -/
def toRat? : Binary64 → Option ℚ
  | finite s m e => some (signed s m * 2 ^ e)
  | _ => none

/-- How far a whole number is shifted to have 53 significant bits. -/
def shiftOf (n : Nat) : Nat := 52 - n.log2

variable {n : Nat}

theorem log2_add_shiftOf (hpos : n ≠ 0) (h : n < 2 ^ 52) : n.log2 + shiftOf n = 52 ∧ 0 < shiftOf n := by
  have hlog : n.log2 < 52 := (Nat.log2_lt hpos).mpr h
  unfold shiftOf
  omega

theorem shifted_bounds (hpos : n ≠ 0) (h : n < 2 ^ 52) :
    2 ^ 52 ≤ n * 2 ^ shiftOf n ∧ n * 2 ^ shiftOf n < 2 ^ 53 := by
  have hsum := (log2_add_shiftOf hpos h).1
  have hlow : 2 ^ 52 = 2 ^ n.log2 * 2 ^ shiftOf n := by rw [← Nat.pow_add, hsum]
  have hhigh : 2 ^ 53 = 2 ^ (n.log2 + 1) * 2 ^ shiftOf n := by rw [← Nat.pow_add, Nat.add_right_comm, hsum]
  rw [hlow, hhigh]
  refine ⟨Nat.mul_le_mul_right _ (Nat.log2_self_le hpos), ?_⟩
  exact Nat.mul_lt_mul_of_pos_right Nat.lt_log2_self (Nat.two_pow_pos _)

theorem scaledRatio_shiftOf (hpos : n ≠ 0) (h : n < 2 ^ 52) :
    scaledRatio n 1 (-(shiftOf n : Int)) = (n * 2 ^ shiftOf n, 1) := by
  have hshift := (log2_add_shiftOf hpos h).2
  rw [scaledRatio, if_pos (by omega), Int.neg_neg, Int.toNat_natCast]
  rfl

theorem exponentFor_natCast (hpos : n ≠ 0) (h : n < 2 ^ 52) : exponentFor n 1 = -(shiftOf n : Int) := by
  have hsum := (log2_add_shiftOf hpos h).1
  have hguess : (n.log2 : Int) - Nat.log2 1 - 52 = -(shiftOf n : Int) := by
    rw [show Nat.log2 1 = 0 by decide]
    omega
  have hfull : ¬ n * 2 ^ shiftOf n < 1 * Nat.pow 2 52 := by
    have hlow := (shifted_bounds hpos h).1
    rw [Nat.one_mul]
    exact Nat.not_lt.mpr hlow
  have hleast : minExponent ≤ -(shiftOf n : Int) := by
    unfold minExponent
    omega
  unfold exponentFor
  dsimp only
  rw [hguess, scaledRatio_shiftOf hpos h]
  dsimp only
  rw [if_neg hfull, max_eq_right hleast]

theorem divHalfEven_one (a : Nat) : divHalfEven a 1 = a := by
  simp [divHalfEven, Nat.mod_one]

/-- A quotient whose rounded significand takes no more than its bits, by the parts it is made of. -/
theorem ofRatio_eq {negative : Bool} {n d a b m : Nat} {e : Int} (hn : n ≠ 0) (hd : d ≠ 0)
    (he : exponentFor n d = e) (hab : scaledRatio n d e = (a, b)) (hm : divHalfEven a b = m)
    (hfits : (m == Nat.pow 2 53) = false) (hrange : e ≤ maxExponent) :
    ofRatio negative n d = finite negative m e := by
  have hzero : (n == 0 || d == 0) = false := by simp [hn, hd]
  unfold ofRatio
  rw [hzero, he]
  simp only [hab, hm, hfits, Bool.false_eq_true, if_false, Int.not_lt.mpr hrange]

theorem ofInt_natCast (hpos : n ≠ 0) (h : n < 2 ^ 52) :
    ofInt n = finite false (n * 2 ^ shiftOf n) (-(shiftOf n : Int)) := by
  have hsign : decide ((n : Int) < 0) = false := by simp
  have hfits : (n * 2 ^ shiftOf n == Nat.pow 2 53) = false :=
    beq_eq_false_iff_ne.mpr (Nat.ne_of_lt (shifted_bounds hpos h).2)
  have hrange : -(shiftOf n : Int) ≤ maxExponent := by
    unfold maxExponent
    omega
  rw [ofInt, hsign, Int.natAbs_natCast]
  exact ofRatio_eq hpos (by decide) (exponentFor_natCast hpos h) (scaledRatio_shiftOf hpos h) (divHalfEven_one _)
    hfits hrange

/-- **Small whole numbers** are binary64 numbers, and nothing is rounded. -/
theorem toRat?_ofInt (h : n < 2 ^ 52) : (ofInt n).toRat? = some (n : ℚ) := by
  by_cases hpos : n = 0
  · rw [hpos]
    simp [ofInt, ofRatio, toRat?, signed]
  · rw [ofInt_natCast hpos h, toRat?]
    simp [signed, zpow_neg]

theorem ofDecimal_natCast (h : n < 10 ^ 9) : ofDecimal false n 0 = ofInt n := by
  have hlength : (digitChars 10 n).length ≤ 9 := (Nat.length_toDigits_le_iff (by decide) (by decide)).mpr h
  by_cases hzero : n = 0
  · rw [hzero]
    rfl
  · have hlow : ¬ (((digitChars 10 n).length : Int) < -400) := by omega
    have hhigh : ¬ 400 < (digitChars 10 n).length := by omega
    have hsign : ¬ (n : Int) < 0 := by omega
    simp [ofDecimal, ofInt, hzero, hlow, hhigh, hsign]

/-- A number in the form of a double is below a whole number as its significand is below that one, shifted. -/
theorem orderInt?_eq_lt {m : Nat} {e n : Int} (he : e ≤ 0) (h : (m : Int) < n * 2 ^ (-e).toNat) :
    (finite false m e).orderInt? n = some .lt := by
  have hsignificand : (m : Int) * Int.pow 2 (e - e).toNat = m := by
    rw [Int.sub_self]
    exact Int.mul_one _
  have horder : compareDyadic m e n 0 = .lt := by
    unfold compareDyadic
    dsimp only
    rw [min_eq_left he, Int.zero_sub, hsignificand]
    exact compare_lt_iff_lt.mpr h
  exact congrArg some horder

end Binary64

/-- A pause below a billion seconds can be made, whatever the limit is. -/
theorem PauseLimit.allows_of_lt {limit? : Option PauseLimit} {seconds : Binary64}
    (h : ∀ n : Int, 1000000000 ≤ n → seconds.orderInt? n = some .lt) : allows limit? seconds = true := by
  cases limit? with
  | none => rfl
  | some limit => simp [allows, h _ limit.generous]

theorem PauseLimit.allows_ofInt {n : Nat} (h : n < 10 ^ 9) (limit? : Option PauseLimit) :
    allows limit? (.ofInt n) = true := by
  refine allows_of_lt fun limit hlimit => ?_
  by_cases hpos : n = 0
  · rw [hpos]
    exact Binary64.orderInt?_eq_lt (by decide) (by positivity)
  · rw [Binary64.ofInt_natCast hpos (Nat.lt_trans h (by decide))]
    refine Binary64.orderInt?_eq_lt (by omega) ?_
    have hlt : (n : Int) < limit := by omega
    simpa using Int.mul_lt_mul_of_pos_right hlt (by positivity : (0 : Int) < 2 ^ Binary64.shiftOf n)

theorem Act.sleep_of_allows {o : Outside} {seconds : Binary64} (h : PauseLimit.allows o.pauseLimit? seconds = true)
    {j : Journal} : Act.sleep seconds o j = (.ok (), j ++ [.sleep seconds]) := by
  rw [Act.sleep, if_pos h]

theorem Act.sleep_of_not_allows {o : Outside} {seconds : Binary64}
    (h : PauseLimit.allows o.pauseLimit? seconds = false) {j : Journal} :
    Act.sleep seconds o j = (.error .outOfRange, j) := by
  rw [Act.sleep, if_neg (by simp [h])]

namespace Client

/-! ## How long the client waits -/

/-- The wait after so many rounds, if the reply does not ask for another. -/
def backoff : Nat → Binary64
  | 0 => firstBackoff
  | i + 1 => nextBackoff (backoff i)

theorem backoff_limit (i : Nat) : backoff (i + 4) = backoffLimit := by
  induction i with
  | zero => decide +kernel
  | succ i ih =>
    rw [Nat.succ_add_eq_add_succ, backoff, ih]
    decide +kernel

theorem backoff_doubled {i : Nat} (h : i < 4) : backoff i = .finite false (2 ^ 52) (i - 53) := by
  have hdoubled : ∀ i < 4, backoff i = .finite false (2 ^ 52) (i - 53) := by decide +kernel
  exact hdoubled i h

/-- **The wait is half a second**, and twice as long in each round up to eight seconds. -/
theorem toRat?_backoff (i : Nat) : (backoff i).toRat? = some (min (1 / 2 * 2 ^ i) 8) := by
  rcases Nat.lt_or_ge i 4 with hi | hi
  · have hbelow : (1 / 2 * 2 ^ i : ℚ) ≤ 8 := by
      have hpow : (2 : ℚ) ^ i ≤ 2 ^ 4 := pow_le_pow_right₀ (by norm_num) hi.le
      linarith
    have hvalue : (2 : ℚ) ^ 52 * 2 ^ ((i : Int) - 53) = 1 / 2 * 2 ^ i := by
      rw [zpow_sub₀ (by norm_num), zpow_natCast]
      norm_num
      ring
    have hsignificand : ((Binary64.signed false (2 ^ 52) : Int) : ℚ) = 2 ^ 52 := by norm_num [Binary64.signed]
    rw [backoff_doubled hi, min_eq_left hbelow, ← hvalue, Binary64.toRat?, hsignificand]
  · obtain ⟨n, rfl⟩ := Nat.exists_eq_add_of_le' hi
    have habove : (8 : ℚ) ≤ 1 / 2 * 2 ^ (n + 4) := by
      have hpow : (1 : ℚ) ≤ 2 ^ n := one_le_pow₀ (by norm_num)
      rw [pow_add]
      linarith
    rw [backoff_limit, min_eq_right habove]
    exact Binary64.toRat?_ofInt (n := 8) (by decide)

/-- The client itself never waits too long. -/
theorem allows_backoff (i : Nat) (limit? : Option PauseLimit) : PauseLimit.allows limit? (backoff i) = true := by
  rcases Nat.lt_or_ge i 4 with hi | hi
  · rw [backoff_doubled hi]
    refine PauseLimit.allows_of_lt fun limit hlimit => Binary64.orderInt?_eq_lt (by omega) ?_
    have hshift : (2 : Int) ^ 50 ≤ 2 ^ (-((i : Int) - 53)).toNat := pow_le_pow_right₀ (by decide) (by omega)
    calc (2 ^ 52 : Int) < 1000000000 * 2 ^ 50 := by decide
      _ ≤ limit * 2 ^ (-((i : Int) - 53)).toNat := by gcongr
  · obtain ⟨n, rfl⟩ := Nat.exists_eq_add_of_le' hi
    rw [backoff_limit]
    exact PauseLimit.allows_ofInt (n := 8) (by decide) limit?

end Client

/-! ## What rounds leave in the journal -/

namespace Journal

/-- The waits of a run. -/
def sleeps (j : Journal) : List Binary64 :=
  j.filterMap fun
    | .sleep seconds => some seconds
    | _ => none

@[simp] theorem requests_append (j k : Journal) : requests (j ++ k) = j.requests ++ k.requests :=
  List.filterMap_append

@[simp] theorem connections_append (j k : Journal) : connections (j ++ k) = j.connections ++ k.connections :=
  List.filterMap_append

@[simp] theorem sleeps_append (j k : Journal) : sleeps (j ++ k) = j.sleeps ++ k.sleeps :=
  List.filterMap_append

/-- The line that tells of a wait. -/
def slowed (request : Request) (delay : Binary64) : Event :=
  .log ⟨.debug, "rate limited on " ++ request.method ++ ", sleeping " ++ delay.fixed 1 ++ "s", none⟩

/-- What a round adds: a post, and the wait after its reply with the line that tells of it. -/
def round (connection : Connection) (request : Request) (delay : Binary64) : Journal :=
  [.post connection request, slowed request delay, .sleep delay]

/-- Rounds with the given waits. -/
def rounds (connection : Connection) (request : Request) (waits : List Binary64) : Journal :=
  waits.flatMap (round connection request)

variable {connection : Connection} {request : Request} {waits : List Binary64}

@[simp] theorem requests_rounds : (rounds connection request waits).requests = List.replicate waits.length request := by
  induction waits with
  | nil => rfl
  | cons delay waits ih => exact congrArg (request :: ·) ih

@[simp] theorem connections_rounds :
    (rounds connection request waits).connections = List.replicate waits.length connection := by
  induction waits with
  | nil => rfl
  | cons delay waits ih => exact congrArg (connection :: ·) ih

@[simp] theorem sleeps_rounds : (rounds connection request waits).sleeps = waits := by
  induction waits with
  | nil => rfl
  | cons delay waits ih => exact congrArg (delay :: ·) ih

@[simp] theorem requests_post : requests [.post connection request] = [request] := rfl

@[simp] theorem requests_post_slowed (delay : Binary64) :
    requests [.post connection request, slowed request delay] = [request] := rfl

@[simp] theorem connections_post : connections [.post connection request] = [connection] := rfl

@[simp] theorem sleeps_post : sleeps [.post connection request] = [] := rfl

theorem rounds_concat (delay : Binary64) : rounds connection request (waits ++ [delay]) =
    rounds connection request waits ++ round connection request delay := by
  simp [rounds]

end Journal

/-! ## Rounds -/

/-- The reply is a response that asks to slow down. -/
def Reply.SlowsDown : Reply → Prop
  | .response r => r.status = 429
  | _ => False

namespace Client

variable {c : Client} {o : Outside} {connection : Connection} {request : Request} {j : Journal}

/-- What comes of a request that was posted so many times before, after what was posted in the past. -/
def replyTo (o : Outside) (past : List Request) (request : Request) (times : Nat) : Reply :=
  o.reply (past ++ List.replicate times request) request

/-- What the last reply to a call makes of it. -/
def settle (connection : Connection) (method : Text) : Reply → Except Fault Json
  | .response r => resultOf method r
  | .timeout => do throw (.transport method (.timedOut (← timeoutText connection.timeout)))
  | .failure reason => .error (.transport method (.failed reason))
  | .raised fault => .error fault

theorem post_apply {reply : Reply} (hreply : o.reply j.requests request = reply) :
    Act.post connection request o j = (.ok reply, j ++ [.post connection request]) := by
  rw [Act.post, hreply]

/-- A reply that does not ask to slow down, or that is the last one allowed, settles the exchange. -/
theorem exchange_settles {left : Nat} {wait : Binary64} {reply : Reply} (hreply : o.reply j.requests request = reply)
    (hlast : left = 0 ∨ ¬ reply.SlowsDown) : exchange connection request left wait o j =
      (settle connection request.method reply, j ++ [.post connection request]) := by
  unfold exchange
  rw [Act.bind_apply_of_ok (post_apply hreply)]
  rcases reply with r | _ | reason | fault
  · cases left with
    | zero => exact Act.lift_apply _ _ _
    | succ left =>
      have hstatus : (r.status == 429) = false := by
        rw [beq_eq_false_iff_ne]
        exact hlast.resolve_left (Nat.succ_ne_zero left)
      simp only [hstatus, Bool.false_eq_true, if_false]
      exact Act.lift_apply _ _ _
  · simp only [settle]
    cases timeoutText connection.timeout <;> rfl
  · rfl
  · rfl

/-- What the client does between a response that asks to slow down, in a way that can be read, and the
next post. -/
theorem exchange_slowed {left : Nat} {wait : Binary64} {r : Response} {delay? : Option Binary64}
    (hreply : o.reply j.requests request = .response r) (hslow : r.status = 429)
    (hdelay : retryAfter? r = .ok delay?) : exchange connection request (left + 1) wait o j =
      (do Act.sleep (delay?.getD wait); exchange connection request left (nextBackoff wait) : Act Json) o
        (j ++ [.post connection request] ++ [Journal.slowed request (delay?.getD wait)]) := by
  rw [exchange, Act.bind_apply_of_ok (post_apply hreply)]
  simp only [hslow, beq_self_eq_true, if_true, hdelay, Act.lift_ok_bind]
  rfl

theorem exchange_repeats {left : Nat} {wait : Binary64} {r : Response} {delay? : Option Binary64}
    (hreply : o.reply j.requests request = .response r) (hslow : r.status = 429)
    (hdelay : retryAfter? r = .ok delay?) (hallowed : PauseLimit.allows o.pauseLimit? (delay?.getD wait) = true) :
    exchange connection request (left + 1) wait o j =
      exchange connection request left (nextBackoff wait) o
        (j ++ Journal.round connection request (delay?.getD wait)) := by
  rw [exchange_slowed hreply hslow hdelay, Act.bind_apply_of_ok (Act.sleep_of_allows hallowed)]
  simp only [List.append_assoc]
  rfl

theorem exchange_exceeded {left : Nat} {wait seconds : Binary64} {r : Response}
    (hreply : o.reply j.requests request = .response r) (hslow : r.status = 429)
    (hdelay : retryAfter? r = .ok (some seconds)) (hlong : PauseLimit.allows o.pauseLimit? seconds = false) :
    exchange connection request (left + 1) wait o j =
      (.error .outOfRange, j ++ [.post connection request, Journal.slowed request seconds]) := by
  rw [exchange_slowed hreply hslow hdelay, Option.getD_some,
    Act.bind_apply_of_error (Act.sleep_of_not_allows hlong), List.append_assoc]
  rfl

/-- A response that asks to slow down, in a way that cannot be read, ends the exchange. -/
theorem exchange_stumbles {left : Nat} {wait : Binary64} {r : Response} {fault : Fault}
    (hreply : o.reply j.requests request = .response r) (hslow : r.status = 429)
    (hdelay : retryAfter? r = .error fault) : exchange connection request (left + 1) wait o j =
      (.error fault, j ++ [.post connection request]) := by
  rw [exchange, Act.bind_apply_of_ok (post_apply hreply)]
  simp only [hslow, beq_self_eq_true, if_true, hdelay]
  rfl

/-- The waits are those of rounds: the replies ask to slow down, and each wait is what its reply asks
for, or else what is due, and can be made. -/
def Waits (o : Outside) (past : List Request) (request : Request) (waits : List Binary64) : Prop :=
  ∀ i delay, waits[i]? = some delay → ∃ r delay?, replyTo o past request i = .response r ∧ r.status = 429 ∧
    retryAfter? r = .ok delay? ∧ delay = delay?.getD (backoff i) ∧ PauseLimit.allows o.pauseLimit? delay = true

/-- How an exchange ends after so many rounds of those allowed, and what the last post is followed by. -/
inductive Closes (o : Outside) (past : List Request) (connection : Connection) (request : Request)
    (allowed rounds : Nat) : Except Fault Json → Journal → Prop
  | settled (hlast : rounds = allowed ∨ ¬ (replyTo o past request rounds).SlowsDown) :
      Closes o past connection request allowed rounds
        (settle connection request.method (replyTo o past request rounds)) []
  | stumbled {r : Response} {fault : Fault} (hmore : rounds < allowed)
      (hreply : replyTo o past request rounds = .response r) (hslow : r.status = 429)
      (hdelay : retryAfter? r = .error fault) :
      Closes o past connection request allowed rounds (.error fault) []
  | exceeded {r : Response} {seconds : Binary64} (hmore : rounds < allowed)
      (hreply : replyTo o past request rounds = .response r) (hslow : r.status = 429)
      (hdelay : retryAfter? r = .ok (some seconds)) (hlong : PauseLimit.allows o.pauseLimit? seconds = false) :
      Closes o past connection request allowed rounds (.error .outOfRange) [Journal.slowed request seconds]

theorem Waits.concat {past : List Request} {waits : List Binary64} {r : Response} {delay? : Option Binary64}
    (h : Waits o past request waits) (hreply : replyTo o past request waits.length = .response r)
    (hslow : r.status = 429) (hdelay : retryAfter? r = .ok delay?)
    (hallowed : PauseLimit.allows o.pauseLimit? (delay?.getD (backoff waits.length)) = true) :
    Waits o past request (waits ++ [delay?.getD (backoff waits.length)]) := by
  intro i delay hi
  rcases Nat.lt_trichotomy i waits.length with hlt | rfl | hgt
  · rw [List.getElem?_append_left hlt] at hi
    exact h i delay hi
  · simp only [List.getElem?_concat_length, Option.some.injEq] at hi
    exact ⟨r, delay?, hreply, hslow, hdelay, hi.symm, hi ▸ hallowed⟩
  · rw [List.getElem?_eq_none (by simp; omega)] at hi
    cases hi

/-- After any number of rounds, the others follow. The induction is on the repetitions that are left;
what was asked so far is the past with the request once for each round. -/
theorem exchange_after_rounds (connection : Connection) {waits : List Binary64}
    (h : Waits o j.requests request waits) (left : Nat) :
    ∃ all result after, Waits o j.requests request all ∧ all.length ≤ waits.length + left ∧
      Closes o j.requests connection request (waits.length + left) all.length result after ∧
      exchange connection request left (backoff waits.length) o (j ++ Journal.rounds connection request waits) =
        (result, j ++ Journal.rounds connection request all ++ .post connection request :: after) := by
  induction left generalizing waits with
  | zero =>
    have hreply : o.reply (j ++ Journal.rounds connection request waits).requests request =
        replyTo o j.requests request waits.length := by simp [replyTo]
    exact ⟨waits, _, _, h, Nat.le_refl _, .settled (.inl rfl), exchange_settles hreply (.inl rfl)⟩
  | succ left ih =>
    have hreply : o.reply (j ++ Journal.rounds connection request waits).requests request =
        replyTo o j.requests request waits.length := by simp [replyTo]
    by_cases hslow : (replyTo o j.requests request waits.length).SlowsDown
    · obtain ⟨r, hr, hstatus⟩ : ∃ r, replyTo o j.requests request waits.length = .response r ∧ r.status = 429 := by
        cases hr : replyTo o j.requests request waits.length with
        | response r => exact ⟨r, rfl, by rwa [hr] at hslow⟩
        | _ => rw [hr] at hslow; exact hslow.elim
      rw [hr] at hreply
      cases hdelay : retryAfter? r with
      | ok delay? =>
        cases hallowed : PauseLimit.allows o.pauseLimit? (delay?.getD (backoff waits.length)) with
        | true =>
          obtain ⟨all, result, after, hall, hlength, hcloses, hrun⟩ := ih (h.concat hr hstatus hdelay hallowed)
          rw [List.length_append, List.length_singleton, Nat.add_assoc, Nat.add_comm 1 left] at hlength hcloses
          refine ⟨all, result, after, hall, hlength, hcloses, ?_⟩
          rw [exchange_repeats hreply hstatus hdelay hallowed, List.append_assoc, ← Journal.rounds_concat, ← hrun,
            List.length_append, List.length_singleton, backoff]
        | false =>
          -- What is due without a word of the reply can be waited for, so the reply asks for it.
          cases delay? with
          | none => simp [allows_backoff] at hallowed
          | some seconds =>
            exact ⟨waits, _, _, h, Nat.le_add_right _ _, .exceeded (by omega) hr hstatus hdelay hallowed,
              exchange_exceeded hreply hstatus hdelay hallowed⟩
      | error fault =>
        exact ⟨waits, _, _, h, Nat.le_add_right _ _, .stumbled (by omega) hr hstatus hdelay,
          exchange_stumbles hreply hstatus hdelay⟩
    · exact ⟨waits, _, _, h, Nat.le_add_right _ _, .settled (.inr hslow), exchange_settles hreply (.inr hslow)⟩

/-- **A run of an exchange**: rounds, no more of them than are allowed, a last post, and what follows it. -/
theorem exchange_runs (connection : Connection) (request : Request) (allowed : Nat) (o : Outside) (j : Journal) :
    ∃ waits result after, Waits o j.requests request waits ∧ waits.length ≤ allowed ∧
    Closes o j.requests connection request allowed waits.length result after ∧
    exchange connection request allowed firstBackoff o j =
      (result, j ++ Journal.rounds connection request waits ++ .post connection request :: after) := by
  have hnone : Waits o j.requests request [] := fun i delay hi => by simp at hi
  have hrun := exchange_after_rounds connection hnone allowed
  rwa [List.length_nil, Nat.zero_add, Journal.rounds, List.flatMap_nil, List.append_nil] at hrun

/-! ## Calls -/

/-- What a response asks of the wait: none, as the header is absent, empty or not of digits; or as many
seconds as ASCII digits spell. -/
inductive AsksFor (r : Response) : Option Nat → Prop
  | absent (h : header? "retry-after" r.headers = none) : AsksFor r none
  | empty {v : Json} (h : header? "retry-after" r.headers = some v) (hv : v.isGiven = false) : AsksFor r none
  | noDigits {t : Text} (h : header? "retry-after" r.headers = some (.str t)) (ht : allDigits t = false) :
      AsksFor r none
  | seconds {ds : List Nat} (h : header? "retry-after" r.headers = some (.str (ofChars (ds.map Nat.digitChar))))
      (hne : ds ≠ []) (hds : ∀ d ∈ ds, d < 10) (hlt : ofDigits 10 ds < 10 ^ 9) : AsksFor r (some (ofDigits 10 ds))

theorem AsksFor.retryAfter? {r : Response} {asked : Option Nat} (h : AsksFor r asked) :
    Client.retryAfter? r = .ok (asked.map fun n => .ofInt n) := by
  unfold Client.retryAfter?
  cases h with
  | absent h => rw [h]; rfl
  | @empty v h hv =>
    rw [h]
    cases v with
    | str t =>
      have hempty : (!t.isEmpty) = false := hv
      have hdigits : allDigits t = false := by rw [allDigits, hempty, Bool.false_and]
      simp [hdigits]
    | _ => simp [hv]
  | noDigits h ht => simp [h, ht]
  | @seconds ds h hne hds hlt =>
    have hdigits : allDigits (ofChars (ds.map Nat.digitChar)) = true :=
      allDigits_ofChars (by simpa using hne) (by simpa using fun d hd => (decimalDigit_facts d (hds d hd)).2.1)
    simp [h, hdigits, Binary64.read?_digits hne hds, Binary64.ofDecimal_natCast hlt]

/-- The wait in a round, in seconds. -/
def secondsOf (round : Nat) : Option Nat → ℚ
  | some asked => asked
  | none => min (1 / 2 * 2 ^ round) 8

theorem AsksFor.not_exceeds {r : Response} {asked : Option Nat} (h : AsksFor r asked) (limit? : Option PauseLimit) :
    ¬ r.Exceeds limit? := by
  rintro ⟨seconds, hdelay, hlong⟩
  rw [h.retryAfter?] at hdelay
  cases h with
  | seconds _ _ _ hlt =>
    cases hdelay
    rw [PauseLimit.allows_ofInt hlt] at hlong
    cases hlong
  | _ => cases hdelay

theorem toRat?_wait {r : Response} {asked : Option Nat} (h : AsksFor r asked) (i : Nat) :
    ((asked.map fun n => Binary64.ofInt n).getD (backoff i)).toRat? = some (secondsOf i asked) := by
  cases h with
  | seconds h hne hds hlt => exact Binary64.toRat?_ofInt (Nat.lt_trans hlt (by decide))
  | _ => exact toRat?_backoff i

theorem settle_slowsDown {method : Text} {reply : Reply} (h : reply.SlowsDown) :
    settle connection method reply = .error (.transport method (.status 429)) := by
  cases reply with
  | response r =>
    have hstatus : r.status = 429 := h
    rw [settle, resultOf, hstatus]
    rfl
  | _ => exact h.elim

/-- A timeout that cannot be written is of the wrong kind or beyond every range. -/
theorem timeoutText_error {timeout : Json} {fault : Fault} (h : timeoutText timeout = .error fault) :
    fault = .outOfRange ∨ fault = .value .unreadable ∨ fault = .mistyped := by
  unfold timeoutText at h
  split at h
  · split at h <;> cases h
    exact .inl rfl
  · cases h
    exact .inr (.inl rfl)
  · cases h
    exact .inr (.inr rfl)

/-- No reply is read as a call that was never settled. -/
theorem settle_eq_rateLimited {method m : Text} {reply : Reply}
    (h : settle connection method reply = .error (.transport m .rateLimited)) :
    reply = .raised (.transport m .rateLimited) := by
  cases reply with
  | response r =>
    rw [settle] at h
    unfold resultOf at h
    split at h
    · cases h
    split at h
    · cases h
    · dsimp only at h
      split at h
      · unfold errorOf at h
        split at h <;> cases h
      · cases h
    · cases h
  | timeout =>
    rw [settle] at h
    cases htext : timeoutText connection.timeout with
    | ok seconds =>
      rw [htext] at h
      cases h
    | error fault =>
      rw [htext] at h
      cases h
      rcases timeoutText_error htext with h | h | h <;> cases h
  | failure reason => cases h
  | raised fault =>
    rw [settle] at h
    cases h
    rfl

/-- The request of a call; parameters that are not given are an empty list. -/
def requestOf (method : Text) (params : Json) : Request := ⟨method, params.orElse (.arr [])⟩

theorem call_eq_exchange {retries : Nat} (h : c.repetitions = .ok retries) (method : Text) (params : Json) :
    c.call method params = exchange c.connection (requestOf method params) retries firstBackoff := by
  unfold call
  rw [h, Act.lift_ok_bind, if_neg (by omega), Int.toNat_natCast]
  rfl

variable {past : List Request} {waits : List Binary64} {asked : Nat → Option Nat}

theorem Waits.map_toRat? (h : Waits o past request waits)
    (hasked : ∀ i r, replyTo o past request i = .response r → r.status = 429 → AsksFor r (asked i)) :
    waits.map Binary64.toRat? = (List.range waits.length).map fun i => some (secondsOf i (asked i)) := by
  refine List.ext_getElem (by simp) fun i hi _ => ?_
  rw [List.length_map] at hi
  obtain ⟨r, delay?, hreply, hslow, hdelay, hwait, -⟩ := h i waits[i] (List.getElem?_eq_getElem hi)
  have hr := hasked i r hreply hslow
  rw [hr.retryAfter?] at hdelay
  cases hdelay
  rw [List.getElem_map, hwait, toRat?_wait hr i]
  simp

theorem Waits.slowsDown (h : Waits o past request waits) : ∀ i < waits.length, (replyTo o past request i).SlowsDown := by
  intro i hi
  obtain ⟨r, -, hreply, hslow, -⟩ := h i waits[i] (List.getElem?_eq_getElem hi)
  rw [hreply]
  exact hslow

/-- Unless what the last reply says of the wait cannot be read, or is too long, the exchange is settled. -/
theorem Closes.settled_of_asksFor {allowed rounds : Nat} {result : Except Fault Json} {after : Journal}
    (h : Closes o past connection request allowed rounds result after)
    (hasked : ∀ r, replyTo o past request rounds = .response r → r.status = 429 → ∃ asked, AsksFor r asked) :
    (rounds = allowed ∨ ¬ (replyTo o past request rounds).SlowsDown) ∧
      result = settle connection request.method (replyTo o past request rounds) ∧ after = [] := by
  cases h with
  | settled hlast => exact ⟨hlast, rfl, rfl⟩
  | stumbled hmore hreply hslow hdelay =>
    obtain ⟨asked, hasked⟩ := hasked _ hreply hslow
    rw [hasked.retryAfter?] at hdelay
    cases hdelay
  | exceeded hmore hreply hslow hdelay hlong =>
    obtain ⟨asked, hasked⟩ := hasked _ hreply hslow
    exact absurd ⟨_, hdelay, hlong⟩ (hasked.not_exceeds _)

/-- The rounds are as many as the replies that ask to slow down, or as many as are allowed. -/
theorem rounds_eq_min {allowed rounds slow : Nat} (hle : rounds ≤ allowed)
    (hrounds : ∀ i < rounds, (replyTo o past request i).SlowsDown)
    (hlast : rounds = allowed ∨ ¬ (replyTo o past request rounds).SlowsDown)
    (hslow : ∀ i < slow, (replyTo o past request i).SlowsDown)
    (hend : slow < allowed → ¬ (replyTo o past request slow).SlowsDown) : rounds = min slow allowed := by
  rcases Nat.lt_trichotomy rounds slow with hlt | heq | hgt
  · have hfull := hlast.resolve_right (not_not_intro (hslow rounds hlt))
    omega
  · omega
  · exact absurd (hrounds slow hgt) (hend (by omega))

/-- **Backing off.** Let the request be posted for a call that may repeat it, and let the replies be so
that those that ask to slow down ask for a wait that can be read. If the first so many replies ask to
slow down, and the next one does not (which says nothing if no repetition is left for it), then there
are as many rounds, or as many as are allowed if those are fewer. Each of them posts the same request
and waits as long as the reply says, or else half a second, doubled for each round before and eight
seconds at most. One more post ends the call, and its reply alone settles it: one that asks to slow
down fails with its status. No reply makes it fail as a call that was never settled. -/
theorem call_backs_off {method : Text} {params : Json} {retries slow : Nat}
    (hretries : c.repetitions = .ok retries)
    (hasked : ∀ i r, replyTo o j.requests (requestOf method params) i = .response r → r.status = 429 →
      AsksFor r (asked i))
    (hslow : ∀ i < slow, (replyTo o j.requests (requestOf method params) i).SlowsDown)
    (hend : slow < retries → ¬ (replyTo o j.requests (requestOf method params) slow).SlowsDown) :
    let request := requestOf method params
    let rounds := min slow retries
    let last := replyTo o j.requests request rounds
    ∃ result after, c.call method params o j = (result, after) ∧ result = settle c.connection method last ∧
      (∃ waits, waits.map Binary64.toRat? = (List.range rounds).map (fun i => some (secondsOf i (asked i))) ∧
        after = j ++ Journal.rounds c.connection request waits ++ [.post c.connection request] ∧
        after.requests = j.requests ++ List.replicate (rounds + 1) request ∧
        after.connections = j.connections ++ List.replicate (rounds + 1) c.connection ∧
        after.sleeps = j.sleeps ++ waits) ∧
      (last.SlowsDown → result = .error (.transport method (.status 429))) ∧
      ∀ m, result = .error (.transport m .rateLimited) → last = .raised (.transport m .rateLimited) := by
  intro request rounds last
  obtain ⟨waits, result, after, hwaits, hle, hcloses, hrun⟩ := exchange_runs c.connection request retries o j
  obtain ⟨hlast, hresult, rfl⟩ := hcloses.settled_of_asksFor fun r hr hstatus => ⟨_, hasked _ r hr hstatus⟩
  have hlength : waits.length = rounds := rounds_eq_min hle hwaits.slowsDown hlast hslow hend
  have hvalues := hwaits.map_toRat? hasked
  rw [hlength] at hresult hvalues
  have hcall := call_eq_exchange hretries method params
  refine ⟨_, _, by rw [hcall, hrun], hresult, ⟨waits, hvalues, rfl, ?_, ?_, ?_⟩, ?_, ?_⟩
  · simp [hlength, List.replicate_succ']
  · simp [hlength, List.replicate_succ']
  · simp
  · intro hslow
    rw [hresult]
    exact settle_slowsDown hslow
  · intro m hm
    rw [hresult] at hm
    exact settle_eq_rateLimited hm

/-- Names of headers are compared in lower case. -/
theorem header?_retryAfter (v : Json) : header? "retry-after" [("Retry-After", v)] = some v := by
  have hname : (lower "Retry-After" == "retry-after") = true := by decide +kernel
  simp [header?, hname]

theorem repetitions_sample : Sample.client.repetitions = .ok (4 : Nat) := rfl

/-- An endpoint that asks to slow down twice, the second time for three seconds, and then answers. -/
def busyEndpoint : Outside :=
  { answering (fun _ => none) with
    reply := fun past _ =>
      match past.length with
      | 0 => .response ⟨429, [], none⟩
      | 1 => .response ⟨429, [("Retry-After", .str "3")], none⟩
      | _ => .response ⟨200, [], some (.obj [("result", .str "0x1")])⟩ }

/-- Three posts, with waits of half a second and of three seconds between them. -/
theorem call_backs_off_busy : (Sample.client.repetitions = .ok (4 : Nat)) ∧
    (∀ i r, replyTo busyEndpoint [] (requestOf "eth_chainId" .null) i = .response r → r.status = 429 →
      AsksFor r (if i = 1 then some 3 else none)) ∧
    (∀ i < 2, (replyTo busyEndpoint [] (requestOf "eth_chainId" .null) i).SlowsDown) ∧
    ¬ (replyTo busyEndpoint [] (requestOf "eth_chainId" .null) 2).SlowsDown ∧
    ∃ after, Sample.client.call "eth_chainId" .null busyEndpoint [] = (.ok (.str "0x1"), after) ∧
      after.requests = List.replicate 3 (requestOf "eth_chainId" .null) ∧
      after.sleeps.map Binary64.toRat? = [some (1 / 2), some 3] := by
  have hreply : ∀ i, replyTo busyEndpoint [] (requestOf "eth_chainId" .null) i =
      match i with
      | 0 => .response ⟨429, [], none⟩
      | 1 => .response ⟨429, [("Retry-After", .str "3")], none⟩
      | _ => .response ⟨200, [], some (.obj [("result", .str "0x1")])⟩ := by
    intro i
    simp [replyTo, busyEndpoint]
  have hasked : ∀ i r, replyTo busyEndpoint [] (requestOf "eth_chainId" .null) i = .response r →
      r.status = 429 → AsksFor r (if i = 1 then some 3 else none) := by
    intro i r hr hstatus
    rw [hreply] at hr
    rcases i with _ | _ | i <;> cases hr
    · exact .absent rfl
    · exact @AsksFor.seconds _ [3] (header?_retryAfter _) (by simp) (by simp) (by decide)
    · cases hstatus
  have hslow : ∀ i < 2, (replyTo busyEndpoint [] (requestOf "eth_chainId" .null) i).SlowsDown := by
    intro i hi
    rw [hreply]
    rcases i with _ | _ | i
    · rfl
    · rfl
    · omega
  have hend : ¬ (replyTo busyEndpoint [] (requestOf "eth_chainId" .null) 2).SlowsDown := by
    rw [hreply]
    show ¬ (200 : Int) = 429
    decide
  obtain ⟨result, after, hcall, hresult, ⟨waits, hwaits, -, hrequests, -, hsleeps⟩, -, -⟩ :=
    call_backs_off (j := []) repetitions_sample hasked hslow fun _ => hend
  have hlast : result = .ok (.str "0x1") := by
    rw [hresult, show min 2 4 = 2 from rfl]
    exact congrArg (settle _ _) (hreply 2)
  refine ⟨repetitions_sample, hasked, hslow, hend, after, by rw [hcall, hlast], hrequests, ?_⟩
  have hrange : List.range (min 2 4) = [0, 1] := rfl
  rw [hsleeps, show Journal.sleeps [] = [] from rfl, List.nil_append, hwaits, hrange]
  norm_num [secondsOf]

end Client
end AssertionReplay
