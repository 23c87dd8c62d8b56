/-
The faults that a call of an endpoint ends with.

Whoever calls an endpoint is told to expect two kinds of fault: an error that
the endpoint answers with, and a request that has no answer. A call ends with
no other unless the endpoint misleads it (`Client.call_answers_iff`): a reply
asks to slow down, for a time in characters that count as digits and spell no
number, such as a superscript two, or for one that is too long to be waited
for; or a request times out, and the time that was allowed cannot be written.
Where neither the digits nor the timeout can do that, only a wait breaks off a
call (`Client.Proper.orderly`).
-/
import AssertionReplay.Proofs.Backoff

namespace AssertionReplay

open Text

/-- The wait that the response asks for counts as digits, but it is no numeral. -/
def Response.Misleads (r : Response) : Prop :=
  ∃ t, Client.header? "retry-after" r.headers = some (.str t) ∧ allDigits t = true ∧ Binary64.read? t = none

/-- What comes of a request over HTTP: any response, whose headers are text; a timeout; or a failure of
the connection. -/
def Reply.IsHttp : Reply → Prop
  | .response r => ∀ v, Client.header? "retry-after" r.headers = some v → ∃ t, v = .str t
  | .timeout | .failure _ => True
  | .raised _ => False

theorem Reply.OverHttp.isHttp {reply : Reply} (h : reply.OverHttp) : reply.IsHttp := by
  cases reply with
  | response r =>
    intro v hv
    obtain ⟨t, ht, -⟩ := h v hv
    exact ⟨t, ht⟩
  | _ => exact h

namespace Client

variable {c : Client} {o : Outside} {connection : Connection} {request : Request} {j : Journal}
variable {past : List Request} {method : Text} {reply : Reply} {r : Response} {fault : Fault}

/-! ## Replies -/

theorem retryAfter?_of_misleads (h : r.Misleads) : retryAfter? r = .error (.value .unreadable) := by
  obtain ⟨t, ht, hdigits, hread⟩ := h
  simp [retryAfter?, ht, hdigits, hread]

theorem retryAfter?_error (h : retryAfter? r = .error fault) : fault = .value .unreadable ∨ fault = .noSuchPart := by
  unfold retryAfter? at h
  split at h
  · cases h
  · split at h
    · cases h
    · split at h <;> cases h
      exact .inl rfl
  · split at h <;> cases h
    exact .inr rfl

/-- A wait in text cannot be read exactly if it counts as digits and is no numeral. -/
theorem retryAfter?_error_iff (h : (Reply.response r).IsHttp) :
    (∃ fault, retryAfter? r = .error fault) ↔ r.Misleads := by
  refine ⟨fun ⟨fault, hfault⟩ => ?_, fun hmisleads => ⟨_, retryAfter?_of_misleads hmisleads⟩⟩
  unfold retryAfter? at hfault
  split at hfault
  · cases hfault
  · rename_i t ht
    split at hfault
    · cases hfault
    · rename_i hdigits
      split at hfault
      · cases hfault
      · rename_i hread
        exact ⟨t, ht, by simpa using hdigits, hread⟩
  · rename_i v hnot hv
    obtain ⟨t, rfl⟩ := h v hv
    exact absurd rfl (hnot t)

/-- A reply settles a call with a fault of another kind exactly if it is a timeout that cannot be
written. -/
theorem settle_isOfCall_iff (h : reply.IsHttp) :
    (∀ fault, settle connection method reply = .error fault → fault.IsOfCall method) ↔
      ¬ (reply = .timeout ∧ ∃ fault, timeoutText connection.timeout = .error fault) := by
  cases reply with
  | response r => exact iff_of_true (fun fault hfault => resultOf_isOfCall hfault) (by simp)
  | failure reason =>
    simp only [reduceCtorEq, false_and, not_false_iff, iff_true]
    intro fault hfault
    cases hfault
    rfl
  | raised fault => exact h.elim
  | timeout =>
    cases htext : timeoutText connection.timeout with
    | ok seconds =>
      have hnone : ¬ ∃ fault, (.ok seconds : Except Fault String) = .error fault := by simp
      simp only [hnone, and_false, not_false_iff, iff_true, settle, htext]
      intro fault hfault
      cases hfault
      rfl
    | error fault =>
      have hsome : ∃ other, (.error fault : Except Fault String) = .error other := ⟨fault, rfl⟩
      simp only [hsome, and_self, not_true, iff_false, settle, htext]
      intro hall
      have hfault := hall fault rfl
      rcases timeoutText_error htext with rfl | rfl | rfl <;> exact hfault.elim

theorem settle_eq_ok {v : Json} (h : settle connection method reply = .ok v) :
    ∃ r, reply = .response r ∧ resultOf method r = .ok v := by
  cases reply with
  | response r => exact ⟨r, rfl, h⟩
  | timeout =>
    rw [settle] at h
    cases htext : timeoutText connection.timeout <;> rw [htext] at h <;> cases h
  | _ => rw [settle] at h; cases h

/-! ## Calls -/

/-- The request was posted so many times when its reply misleads the client: it asks for a wait that
cannot be read or is too long to be made, and a repetition is left; or it is a timeout, and the time
allowed cannot be written. -/
def MisledAt (connection : Connection) (o : Outside) (past : List Request) (request : Request) (allowed times : Nat) :
    Prop :=
  (times < allowed ∧ ∃ r, replyTo o past request times = .response r ∧ r.status = 429 ∧
    (r.Misleads ∨ r.Exceeds o.pauseLimit?)) ∨
    (replyTo o past request times = .timeout ∧ ∃ fault, timeoutText connection.timeout = .error fault)

variable {allowed rounds : Nat} {waits : List Binary64} {result : Except Fault Json}
  {after : Journal}

/-- An exchange ends with a fault of another kind exactly if its last reply misleads the client. -/
theorem Closes.isOfCall_iff (h : Closes o past connection request allowed rounds result after)
    (hhttp : (replyTo o past request rounds).IsHttp) :
    (∀ fault, result = .error fault → fault.IsOfCall request.method) ↔
      ¬ MisledAt connection o past request allowed rounds := by
  cases h with
  | settled hlast =>
    have hreadable : ¬ (rounds < allowed ∧ ∃ r, replyTo o past request rounds = .response r ∧ r.status = 429 ∧
        (r.Misleads ∨ r.Exceeds o.pauseLimit?)) := by
      rintro ⟨hmore, r, hreply, hslow, -⟩
      refine hlast.elim (fun hfull => by omega) fun hother => hother ?_
      rw [hreply]
      exact hslow
    rw [settle_isOfCall_iff hhttp, MisledAt, or_iff_right hreadable]
  | @stumbled r fault hmore hreply hslow hdelay =>
    have hmisleads : r.Misleads := (retryAfter?_error_iff (hreply ▸ hhttp)).mp ⟨fault, hdelay⟩
    refine iff_of_false (fun hall => ?_) (not_not_intro (.inl ⟨hmore, r, hreply, hslow, .inl hmisleads⟩))
    have hfault := hall fault rfl
    rcases retryAfter?_error hdelay with rfl | rfl <;> exact hfault
  | @exceeded r seconds hmore hreply hslow hdelay hlong =>
    refine iff_of_false (fun hall => hall .outOfRange rfl) (not_not_intro (.inl ⟨hmore, r, hreply, hslow, .inr ?_⟩))
    exact ⟨seconds, hdelay, hlong⟩

/-- Among the replies up to the last one allowed that follow others which ask to slow down, the one after
the rounds is the only one that may mislead the client. -/
theorem Closes.misledAt_iff (h : Closes o past connection request allowed waits.length result after)
    (hwaits : Waits o past request waits) (hle : waits.length ≤ allowed)
    (hhttp : ∀ i, (replyTo o past request i).IsHttp) :
    MisledAt connection o past request allowed waits.length ↔ ∃ i ≤ allowed,
      (∀ k < i, (replyTo o past request k).SlowsDown) ∧ MisledAt connection o past request allowed i := by
  constructor
  · exact fun hmisled => ⟨waits.length, hle, hwaits.slowsDown, hmisled⟩
  · rintro ⟨i, hi, hslow, hmisled⟩
    rcases Nat.lt_trichotomy i waits.length with hlt | rfl | hgt
    · obtain ⟨r, delay?, hreply, -, hdelay, hwait, hallowed⟩ := hwaits i waits[i] (List.getElem?_eq_getElem hlt)
      rcases hmisled with ⟨-, r', hreply', -, hmisleads | ⟨seconds, hasked, hlong⟩⟩ | ⟨htimeout, -⟩
      · obtain rfl : r = r' := by simpa [hreply] using hreply'
        obtain ⟨fault, hfault⟩ := (retryAfter?_error_iff (hreply ▸ hhttp i)).mpr hmisleads
        rw [hdelay] at hfault
        cases hfault
      · obtain rfl : r = r' := by simpa [hreply] using hreply'
        obtain rfl : some seconds = delay? := Except.ok.inj (hasked.symm.trans hdelay)
        rw [hwait, Option.getD_some, hlong] at hallowed
        cases hallowed
      · rw [hreply] at htimeout
        cases htimeout
    · exact hmisled
    · cases h with
      | settled hlast => exact hlast.elim (fun hfull => by omega) fun hother => absurd (hslow _ hgt) hother
      | stumbled hmore hreply hstatus hdelay =>
        exact .inl ⟨hmore, _, hreply, hstatus, .inl ((retryAfter?_error_iff (hreply ▸ hhttp _)).mp ⟨_, hdelay⟩)⟩
      | exceeded hmore hreply hstatus hdelay hlong =>
        exact .inl ⟨hmore, _, hreply, hstatus, .inr ⟨_, hdelay, hlong⟩⟩

theorem Closes.exists_response {v : Json} (h : Closes o past connection request allowed rounds (.ok v) after) :
    ∃ r, replyTo o past request rounds = .response r ∧ resultOf request.method r = .ok v := by
  generalize hv : Except.ok v = result at h
  cases h with
  | settled =>
    rw [← hv]
    exact settle_eq_ok hv.symm
  | stumbled | exceeded => cases hv

/-- The call returns the result that one of the replies carries, or fails with a fault of the call. -/
def Answers (c : Client) (o : Outside) (j : Journal) (method : Text) (params : Json) : Prop :=
  (∃ i r v, replyTo o j.requests (requestOf method params) i = .response r ∧ resultOf method r = .ok v ∧
    (c.call method params o j).1 = .ok v) ∨
  ∃ fault, (c.call method params o j).1 = .error fault ∧ fault.IsOfCall method

/-- **What a call ends with.** A call over HTTP returns the result that a reply carries, or fails with a
fault that its callers are told to expect, unless, after replies that ask to slow down and within the
repetitions that are allowed, one misleads the client: it asks for a wait in what counts as digits
and is no numeral, or for one that is too long to be made, or it is a timeout and the time allowed
cannot be written. Then, and only then, the fault is another. -/
theorem call_answers_iff {params : Json} (hretries : c.repetitions = .ok allowed)
    (hhttp : ∀ i, (replyTo o j.requests (requestOf method params) i).IsHttp) :
    c.Answers o j method params ↔ ¬ ∃ i ≤ allowed,
      (∀ k < i, (replyTo o j.requests (requestOf method params) k).SlowsDown) ∧
      MisledAt c.connection o j.requests (requestOf method params) allowed i := by
  obtain ⟨waits, result, after, hwaits, hle, hcloses, hrun⟩ :=
    exchange_runs c.connection (requestOf method params) allowed o j
  have hcall : (c.call method params o j).1 = result := by rw [call_eq_exchange hretries, hrun]
  rw [← hcloses.misledAt_iff hwaits hle hhttp, ← hcloses.isOfCall_iff (hhttp _), Answers, hcall]
  constructor
  · rintro (⟨i, r, v, -, -, rfl⟩ | ⟨fault, rfl, hfault⟩) other hother
    · cases hother
    · cases hother
      exact hfault
  · intro hall
    cases hresult : result with
    | ok v =>
      rw [hresult] at hcloses
      obtain ⟨r, hreply, hr⟩ := hcloses.exists_response
      exact .inl ⟨_, r, v, hreply, hr, rfl⟩
    | error fault => exact .inr ⟨fault, rfl, hall fault hresult⟩

/-- An endpoint that always asks to slow down for a superscript two of seconds. -/
def superscriptEndpoint : Outside :=
  { answering (fun _ => none) with
    reply := fun _ _ => .response ⟨429, [("Retry-After", .str "²")], none⟩ }

theorem misleads_superscript : (Response.mk 429 [("Retry-After", .str "²")] none).Misleads :=
  ⟨"²", header?_retryAfter _, by decide +kernel, by decide +kernel⟩

/-- Without repetitions the wait is not read, and the call fails with the status; with some it is read,
and fails otherwise. -/
theorem call_answers_iff_superscript : (∀ i, (replyTo superscriptEndpoint [] (requestOf "eth_chainId" .null) i).IsHttp) ∧
    (Client.mk Sample.client.connection (.int 0)).Answers superscriptEndpoint [] "eth_chainId" .null ∧
    ¬ Sample.client.Answers superscriptEndpoint [] "eth_chainId" .null := by
  have hhttp : ∀ i, (replyTo superscriptEndpoint [] (requestOf "eth_chainId" .null) i).IsHttp := by
    intro i v hv
    obtain ⟨t, ht, -⟩ := misleads_superscript
    exact ⟨t, Option.some.inj (hv.symm.trans ht)⟩
  have hnone : (Client.mk Sample.client.connection (.int 0)).repetitions = .ok (0 : Nat) := rfl
  refine ⟨hhttp, (call_answers_iff hnone hhttp).mpr ?_, fun hanswers => ?_⟩
  · rintro ⟨i, -, -, ⟨hmore, -⟩ | ⟨htimeout, -⟩⟩
    · exact absurd hmore (Nat.not_lt_zero i)
    · cases htimeout
  · refine (call_answers_iff repetitions_sample hhttp).mp hanswers ⟨0, by omega, by simp, .inl ⟨by omega, ?_⟩⟩
    exact ⟨_, rfl, rfl, .inl misleads_superscript⟩

/-- The fault is one that no caller is told to expect. -/
theorem call_misled_superscript :
    (Sample.client.call "eth_chainId" .null superscriptEndpoint []).1 = .error (.value .unreadable) ∧
      Fault.isOwn (.value .unreadable) = false := by
  refine ⟨?_, rfl⟩
  rw [call_eq_exchange repetitions_sample, exchange_stumbles rfl rfl (retryAfter?_of_misleads misleads_superscript)]

/-- An endpoint that always asks to slow down for 9223372037 seconds, where fewer can be waited for. -/
def longWaitEndpoint : Outside :=
  { answering (fun _ => none) with
    reply := fun _ _ => .response ⟨429, [("Retry-After", .str "9223372037")], none⟩
    pauseLimit? := some ⟨9223372037, by decide⟩ }

/-- The wait is read, and so is a fault that no caller is told to expect. -/
theorem call_misled_longWait :
    (Sample.client.call "eth_chainId" .null longWaitEndpoint []).1 = .error .outOfRange ∧
      Fault.isOwn .outOfRange = false := by
  have hdigits : allDigits "9223372037" = true := by decide +kernel
  have hread : Binary64.read? "9223372037" = some (.ofInt 9223372037) := by decide +kernel
  have hdelay : retryAfter? ⟨429, [("Retry-After", .str "9223372037")], none⟩ = .ok (some (.ofInt 9223372037)) := by
    simp [retryAfter?, header?_retryAfter, hdigits, hread]
  have hlong : PauseLimit.allows longWaitEndpoint.pauseLimit? (.ofInt 9223372037) = false := by decide +kernel
  refine ⟨?_, rfl⟩
  rw [call_eq_exchange repetitions_sample, exchange_exceeded rfl rfl hdelay hlong]

/-! ## Calls that are broken off -/

/-- A call of the client ended so at a wait: the reply to the last of its posts asks for one that is too
long. -/
inductive BrokenOff (c : Client) (o : Outside) : Fault → Journal → Prop
  | waiting {method : Text} {params : Json} {before after : Journal} {i : Nat} {r : Response}
      (hcall : c.call method params o before = (.error .outOfRange, after))
      (hposts : after.requests = before.requests ++ List.replicate (i + 1) (requestOf method params))
      (hreply : replyTo o before.requests (requestOf method params) i = .response r) (hslow : r.status = 429)
      (hexceeds : r.Exceeds o.pauseLimit?) : BrokenOff c o .outOfRange after

theorem not_brokenOff (h : ∀ past request, (o.reply past request).StaysWithin o.pauseLimit?) {fault : Fault}
    {j : Journal} : ¬ c.BrokenOff o fault j := by
  intro hbroken
  cases hbroken with
  | waiting _ _ hreply hslow hexceeds => exact h _ _ _ hreply hslow hexceeds

/-- Every call yields a value or fails with a fault of the tool's own, or it is broken off. -/
def Orderly (c : Client) (o : Outside) : Prop :=
  ∀ method params, Act.Ends o (c.call method params) (fun _ => True)
    fun fault j => fault.isOwn = true ∨ c.BrokenOff o fault j

/-- **Calls over HTTP** are orderly. -/
theorem Proper.orderly (hc : c.Proper) (ho : o.OverHttp) : c.Orderly o := by
  intro method params
  obtain ⟨left, hleft⟩ := hc.retries
  rcases lt_or_ge left 0 with hneg | hpos
  · unfold call
    rw [hleft, Act.lift_ok_bind, if_pos hneg]
    exact fun _ => .inl rfl
  obtain ⟨allowed, rfl⟩ := Int.eq_ofNat_of_zero_le hpos
  refine .of_cases fun j => ?_
  obtain ⟨waits, result, after, -, -, hcloses, hrun⟩ :=
    exchange_runs c.connection (requestOf method params) allowed o j
  rw [← call_eq_exchange hleft] at hrun
  cases result with
  | ok v => exact .inl ⟨v, _, hrun, trivial⟩
  | error fault =>
    refine .inr ⟨fault, _, hrun, ?_⟩
    generalize hresult : Except.error fault = result at hcloses
    cases hcloses with
    | settled =>
      refine .inl ((settle_isOfCall_iff (ho _ _).isHttp).mpr ?_ fault hresult.symm).isOwn
      rintro ⟨-, other, hother⟩
      obtain ⟨seconds, hseconds⟩ := hc.timeout
      rw [hseconds] at hother
      cases hother
    | stumbled _ hreply _ hdelay =>
      have hhttp := ho (j.requests ++ List.replicate waits.length (requestOf method params)) (requestOf method params)
      rw [← replyTo, hreply] at hhttp
      obtain ⟨delay?, hread⟩ := retryAfter?_ok hhttp
      rw [hread] at hdelay
      cases hdelay
    | exceeded _ hreply hslow hdelay hlong =>
      cases hresult
      refine .inr (.waiting hrun ?_ hreply hslow ⟨_, hdelay, hlong⟩)
      simp [List.replicate_succ']

end Client
end AssertionReplay
