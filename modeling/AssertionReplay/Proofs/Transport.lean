/-
What comes of a request over HTTP.

A response, whatever its status and its body, a timeout and a failure of the
connection all leave a call with a value or with a fault of the tool's own.
Only a wait that the endpoint asks for could break this. It is read from a
header, and a text that counts as digits need not be one that is read as a
number; with ASCII digits it always is (`read?_asciiDigits`). And a wait that
is read may be too long to be made (`Response.Exceeds`).
-/
import AssertionReplay.Proofs.Endpoint

namespace AssertionReplay

open Text

/-! ## A wait in digits -/

/-- The text is of ASCII digits and nothing else. -/
def AsciiDigits (t : Text) : Prop := ∃ ds : List Nat, (∀ d ∈ ds, d < 10) ∧ t = ofChars (ds.map Nat.digitChar)

namespace Binary64

theorem splitAtFirst_eq {p : Char → Bool} {cs : List Char} (h : ∀ c ∈ cs, p c = false) :
    splitAtFirst p cs = (cs, none) := by
  have hdrop : (cs.dropWhile fun c => !p c) = [] :=
    List.dropWhile_eq_nil_iff.mpr fun c hc => by simp [h c hc]
  simp [splitAtFirst, hdrop]

/-- Where a numeral is digits alone, no part of it but the digits is there to be read. -/
theorem readMagnitude?_digits {negative : Bool} {ds : List Nat} (hne : ds ≠ []) (hds : ∀ d ∈ ds, d < 10) :
    readMagnitude? negative (ds.map Nat.digitChar) = some (ofDecimal negative (ofDigits 10 ds) 0) := by
  have hfacts : ∀ d < 10, (Nat.digitChar d == 'e' || Nat.digitChar d == 'E') = false := by decide
  have hwhole : digitsOrNone? (ds.map Nat.digitChar) = some ds := by
    rw [digitsOrNone?, digits?_digits hne hds]
    simpa using hne
  have hmark : splitAtFirst (fun c => c == 'e' || c == 'E') (ds.map Nat.digitChar) = (ds.map Nat.digitChar, none) :=
    splitAtFirst_eq (by simpa using fun d hd => hfacts d (hds d hd))
  have hpoint : splitAtFirst (· == '.') (ds.map Nat.digitChar) = (ds.map Nat.digitChar, none) :=
    splitAtFirst_eq (by simp)
  have hnothing : digitsOrNone? [] = some [] := rfl
  simp [readMagnitude?, hmark, hpoint, hwhole, hnothing, hne]

/-- The name of an infinity, or of what is no number, has letters. -/
theorem readUnsigned?_digits {negative : Bool} {ds : List Nat} (hne : ds ≠ []) (hds : ∀ d ∈ ds, d < 10) :
    readUnsigned? negative (ds.map Nat.digitChar) = some (ofDecimal negative (ofDigits 10 ds) 0) := by
  have hname : ∀ name : String, 'n' ∈ name.toList →
      (String.ofList ((ds.map Nat.digitChar).map asciiLower) == name) = false := by
    intro name hn
    rw [beq_eq_false_iff_ne]
    intro h
    rw [← h, String.toList_ofList, List.map_map] at hn
    obtain ⟨d, hd, heq⟩ := List.mem_map.mp hn
    exact (by decide : ∀ d < 10, asciiLower (Nat.digitChar d) ≠ 'n') d (hds d hd) heq
  unfold readUnsigned?
  dsimp only
  rw [hname "inf" (by decide), hname "infinity" (by decide), hname "nan" (by decide)]
  exact readMagnitude?_digits hne hds

theorem read?_digits {ds : List Nat} (hne : ds ≠ []) (hds : ∀ d ∈ ds, d < 10) :
    read? (ofChars (ds.map Nat.digitChar)) = some (ofDecimal false (ofDigits 10 ds) 0) := by
  have hfacts : ∀ d < 10, isNumeralBlank (Nat.digitChar d) = false ∧ Nat.digitChar d ≠ '-' ∧
      Nat.digitChar d ≠ '+' := by decide
  have htrim : trimBy isNumeralBlank (ds.map Nat.digitChar) = ds.map Nat.digitChar :=
    (trimmed_of_none (by simpa using fun d hd => (hfacts d (hds d hd)).1)).trimBy
  rw [read?, chars?_ofChars, Option.bind_some, readChars?, htrim]
  split
  · rename_i heq
    obtain ⟨d, hd, hsign⟩ := List.mem_map.mp (heq ▸ List.mem_cons_self : '-' ∈ ds.map Nat.digitChar)
    exact absurd hsign (hfacts d (hds d hd)).2.1
  · rename_i heq
    obtain ⟨d, hd, hsign⟩ := List.mem_map.mp (heq ▸ List.mem_cons_self : '+' ∈ ds.map Nat.digitChar)
    exact absurd hsign (hfacts d (hds d hd)).2.2
  · exact readUnsigned?_digits hne hds

theorem read?_asciiDigits {t : Text} (h : AsciiDigits t) (hne : t.isEmpty = false) : (read? t).isSome := by
  obtain ⟨ds, hds, rfl⟩ := h
  have hne : ds ≠ [] := by
    intro hnil
    rw [hnil] at hne
    cases hne
  rw [read?_digits hne hds]
  rfl

end Binary64

/-! ## Replies -/

/-- The fault is one that the callers of a method are told to expect. -/
def Fault.IsOfCall (method : Text) : Fault → Prop
  | .rpc m _ _ => m = method
  | .transport m _ => m = method
  | _ => False

theorem Fault.IsOfCall.isOwn {method : Text} {fault : Fault} (h : fault.IsOfCall method) : fault.isOwn = true := by
  cases fault with
  | rpc => rfl
  | transport => rfl
  | _ => cases h

/-- What comes of a request over HTTP: any response, if a wait that it asks for is in ASCII digits, a
timeout, or a failure of the connection. -/
def Reply.OverHttp : Reply → Prop
  | .response r => ∀ v, Client.header? "retry-after" r.headers = some v → ∃ t, v = .str t ∧ AsciiDigits t
  | .timeout => True
  | .failure _ => True
  | .raised _ => False

/-- The endpoint is reached over HTTP, if at all. -/
def Outside.OverHttp (o : Outside) : Prop := ∀ past request, (o.reply past request).OverHttp

/-- The response asks for a wait that is too long to be made. -/
def Response.Exceeds (limit? : Option PauseLimit) (r : Response) : Prop :=
  ∃ seconds, Client.retryAfter? r = .ok (some seconds) ∧ PauseLimit.allows limit? seconds = false

/-- A reply that asks to slow down asks for no wait that is too long. -/
def Reply.StaysWithin (limit? : Option PauseLimit) (reply : Reply) : Prop :=
  ∀ r, reply = .response r → r.status = 429 → ¬ r.Exceeds limit?

namespace Client

variable {c : Client} {o : Outside}

/-- The settings of a client that it can work with: a whole number of repetitions, and a timeout that
can be written. -/
structure Proper (c : Client) : Prop where
  retries : ∃ k, c.repetitions = .ok k
  timeout : ∃ seconds, timeoutText c.connection.timeout = .ok seconds

theorem retryAfter?_ok {r : Response} (h : (Reply.response r).OverHttp) : ∃ delay?, retryAfter? r = .ok delay? := by
  unfold retryAfter?
  split
  · exact ⟨_, rfl⟩
  · rename_i t ht
    split
    · exact ⟨_, rfl⟩
    · rename_i hdigits
      obtain ⟨t', heq, hascii⟩ := h _ ht
      cases heq
      have hne : t.isEmpty = false := by
        rw [Bool.eq_false_iff]
        intro hempty
        simp [allDigits, hempty] at hdigits
      obtain ⟨x, hx⟩ := Option.isSome_iff_exists.mp (Binary64.read?_asciiDigits hascii hne)
      exact ⟨some x, by rw [hx]⟩
  · rename_i v hnot hv
    obtain ⟨t, rfl, -⟩ := h v hv
    exact absurd rfl (hnot t)

theorem resultOf_isOfCall {method : Text} {r : Response} {fault : Fault} (h : resultOf method r = .error fault) :
    fault.IsOfCall method := by
  unfold resultOf at h
  split at h
  · cases h
    rfl
  split at h
  · cases h
    rfl
  · dsimp only at h
    split at h
    · cases h
      unfold errorOf
      split <;> rfl
    · cases h
  · cases h
    rfl

theorem overHttp_answering (answer? : Request → Option Json) : (answering answer?).OverHttp := by
  intro past request
  unfold answering
  dsimp only
  split
  all_goals
    intro v hv
    cases hv

theorem staysWithin_answering (answer? : Request → Option Json) (past : List Request) (request : Request)
    (limit? : Option PauseLimit) : ((answering answer?).reply past request).StaysWithin limit? := by
  intro r hr hslow
  unfold answering at hr
  dsimp only at hr
  split at hr
  all_goals
    cases hr
    cases hslow

end Client
end AssertionReplay
