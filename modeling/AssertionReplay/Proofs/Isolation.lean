/-
What one answer costs the other transactions of a block.

Two strategies ask about the transactions of a block one by one: for their
call trees, or for their receipts (`Strategy.Inquires`). A request that fails
is logged and costs only the transaction that it was made for, and so does an
answer that tells of another address. An answer that cannot be read to its
end does not: its fault leaves the strategy, and the block is left without
any inner call (`Fetcher.not_detects_of_spoils`). So whether what is detected
apart from a transaction depends on what is told about it is a question of
whether that spoils the block (`detects_apart_iff`).
-/
import AssertionReplay.Proofs.DirectCalls

namespace AssertionReplay

open Text Act

/-- The endpoint answers the request with a value, or the request fails. -/
def Client.Answered (c : Client) (o : Outside) (request : Request) : Prop :=
  (∃ v, c.Gets o request.method request.params v) ∨ c.Fails o request.method request.params

variable {answer answer' : Request → Reply} {o o' : Outside} {c : Client} {n : Int}

theorem Outside.Told.repliesBy {asked : Request → Prop} (ho : o.Told answer) : o.RepliesBy asked answer :=
  fun past request _ => ho past request trivial

namespace Strategy

/-! ## Asking about one transaction -/

/-- What is asked about a transaction, and how it is read from the answer whether the transaction reaches
the target. -/
structure Inquiry where
  request : (hash : Text) → Request
  reads : (target answer : Json) → Except Fault Bool

namespace Inquiry

/-- For the call tree. -/
def trace : Inquiry where
  request hash := ⟨"debug_traceTransaction", .arr [.str hash, Client.callTracer]⟩
  reads target answer := CallTree.reaches target (answer.orElse (.obj []))

/-- For the logs of the receipt. -/
def receipt : Inquiry where
  request hash := ⟨"eth_getTransactionReceipt", .arr [.str hash]⟩
  reads := receiptTouches

/-- What comes of a call: a transaction whose call fails does not count as reaching the target. -/
def ofCall (q : Inquiry) (target : Json) : Except Fault Json → Except Fault Bool
  | .ok answer => q.reads target answer
  | .error e => if e.isOwn then .ok false else .error e

end Inquiry

/-- The strategy goes through the transactions of a block and asks so about each of them. -/
inductive Inquires : Strategy → Inquiry → Prop
  | trace : Inquires .traceTransaction .trace
  | receipt : Inquires .receiptLogs .receipt

variable {s : Strategy} {q : Inquiry} {target : Json} {hash k h : Text} {j : Journal}

theorem traceReaches_apply : (traceReaches c target hash o j).1 =
    Inquiry.trace.ofCall target (c.call "debug_traceTransaction" (.arr [.str hash, Client.callTracer]) o j).1 := by
  refine logged_or_read.trans ?_
  rcases hcall : c.call "debug_traceTransaction" (.arr [.str hash, Client.callTracer]) o j with ⟨e | v, j'⟩
  · have hfails : c.traceTransaction (.str hash) o j = (.error e, j') := bind_apply_of_error hcall
    rw [hfails]
    rfl
  · have hgets : c.traceTransaction (.str hash) o j = (.ok (v.orElse (.obj [])), j') := bind_apply_of_ok hcall
    rw [hgets]
    rfl

theorem receiptReaches_apply : (receiptReaches c target hash o j).1 =
    Inquiry.receipt.ofCall target (c.call "eth_getTransactionReceipt" (.arr [.str hash]) o j).1 := by
  refine logged_or_read.trans ?_
  rw [Client.transactionReceipt]
  cases (c.call "eth_getTransactionReceipt" (.arr [.str hash]) o j).1 <;> rfl

namespace Inquires

/-- Such a strategy tests the transactions one by one, each by what comes of the call about it. -/
theorem exists_test (hq : s.Inquires q) (c : Client) (target : Json) : ∃ test : Text → Act Bool,
    (∀ block transactions, s.blockHashes c target block transactions =
      indirectHashes target test [] transactions) ∧
    ∀ hash o j, (test hash o j).1 =
      q.ofCall target (c.call (q.request hash).method (q.request hash).params o j).1 := by
  cases hq with
  | trace => exact ⟨traceReaches c target, fun _ _ => rfl, fun _ _ _ => traceReaches_apply⟩
  | receipt => exact ⟨receiptReaches c target, fun _ _ => rfl, fun _ _ _ => receiptReaches_apply⟩

theorem request_injective (hq : s.Inquires q) (heq : q.request hash = q.request k) : hash = k := by
  cases hq <;> simpa [Inquiry.trace, Inquiry.receipt] using heq

theorem call_settled (hq : s.Inquires q) (c : Client) (hash : Text) (answer : Request → Reply)
    (limit? : Option PauseLimit) : Settled (Outside.Behaves (· = q.request hash) answer limit?)
      (c.call (q.request hash).method (q.request hash).params) := by
  cases hq <;> exact c.call_settled rfl

end Inquires

/-! ## What spoils a block -/

variable {told told' : Text → Except Fault Bool} {transactions : List Json}

/-- What breaks at another hash breaks as well where the same comes of asking about that one. -/
theorem Breaks.congr (hbreaks : Breaks target told transactions) (hsame : ∀ k, k ≠ h → told k = told' k)
    (hreads : ¬ (AsksAbout target transactions h ∧ ∃ e, told h = .error e)) : Breaks target told' transactions := by
  cases hbreaks with
  | transaction ht he => exact .transaction ht he
  | @told hash e hasked he =>
    by_cases hhash : hash = h
    · subst hhash
      exact absurd ⟨hasked, e, he⟩ hreads
    · exact .told hasked ((hsame hash hhash).symm.trans he)

end Strategy

namespace Fetcher

open Strategy

variable {f : Fetcher} {s : Strategy} {q : Inquiry} {transactions : List Json} {hash name k h : Text} {t v : Json}
  {j : Journal}

/-! ## What is told about a transaction -/

/-- What comes of asking about the hash. -/
def told (f : Fetcher) (q : Inquiry) (o : Outside) (hash : Text) : Except Fault Bool :=
  q.ofCall (.str f.target) (f.client.call (q.request hash).method (q.request hash).params o []).1

/-- The hash is asked about, and answered with a value that cannot be read to its end. -/
def Spoils (f : Fetcher) (q : Inquiry) (o : Outside) (transactions : List Json) (hash : Text) : Prop :=
  AsksAbout (.str f.target) transactions hash ∧
    ∃ v, f.client.Gets o (q.request hash).method (q.request hash).params v ∧ ∃ e, q.reads (.str f.target) v = .error e

/-- The detection cannot go through all of the block. -/
abbrev BreaksOff (f : Fetcher) (q : Inquiry) (o : Outside) (transactions : List Json) : Prop :=
  Breaks (.str f.target) (f.told q o) transactions

theorem told_eq (hq : s.Inquires q) (ho : o.Told answer) :
    q.ofCall (.str f.target) (f.client.call (q.request hash).method (q.request hash).params o j).1 =
      f.told q o hash := by
  obtain ⟨r, hr⟩ := hq.call_settled f.client hash answer o.pauseLimit?
  rw [told, hr o ho.repliesBy.behaves, hr o ho.repliesBy.behaves]

theorem told_congr (hq : s.Inquires q) (ho : o.Told answer) (ho' : o'.Told answer')
    (hpauses : o'.pauseLimit? = o.pauseLimit?) (hsame : answer (q.request k) = answer' (q.request k)) :
    f.told q o k = f.told q o' k := by
  obtain ⟨r, hr⟩ := hq.call_settled f.client k answer o.pauseLimit?
  have hreplies' : o'.RepliesBy (· = q.request k) answer := by
    rintro past request rfl
    rw [ho' _ _ trivial, hsame]
  rw [told, told, hr o ho.repliesBy.behaves, hr o' ⟨hreplies', hpauses⟩]

theorem told_of_gets (hgets : f.client.Gets o (q.request hash).method (q.request hash).params v) :
    f.told q o hash = q.reads (.str f.target) v := by
  obtain ⟨_, hcall, rfl⟩ := hgets []
  rw [told, hcall, Inquiry.ofCall]

/-- A well-typed call tree is read to its end, so that it costs no other transaction either. -/
theorem told_of_tree (hgets : f.client.Gets o (Inquiry.trace.request hash).method (Inquiry.trace.request hash).params v)
    (hv : CallTree.WellTyped v) :
    f.told .trace o hash = .ok ((CallTree.recipients v).any (Address.names f.target)) := by
  have hreads : Inquiry.trace.reads (.str f.target) v = CallTree.reaches (.str f.target) v :=
    CallTree.reaches_orElse v
  rw [told_of_gets hgets, hreads, CallTree.reaches_eq hv]

/-- A request that fails costs only the transaction that it was made for. -/
theorem told_of_fails (hfails : f.client.Fails o (q.request hash).method (q.request hash).params) :
    f.told q o hash = .ok false := by
  rcases hfails.cases [] with ⟨_, _, _, hfalse⟩ | ⟨e, j, hcall, hown⟩
  · exact hfalse.elim
  · rw [told, hcall, Inquiry.ofCall, if_pos hown]

/-- Where requests are answered or fail, a hash spoils the block just if what comes of asking about it is a
fault. -/
theorem spoils_iff (hanswered : f.client.Answered o (q.request hash)) : f.Spoils q o transactions hash ↔
    AsksAbout (.str f.target) transactions hash ∧ ∃ e, f.told q o hash = .error e := by
  refine and_congr_right fun _ => ⟨fun ⟨v, hgets, hfault⟩ => ?_, fun ⟨e, he⟩ => ?_⟩
  · rwa [told_of_gets hgets]
  · rcases hanswered with ⟨v, hgets⟩ | hfails
    · exact ⟨v, hgets, e, by rw [← told_of_gets hgets, he]⟩
    · rw [told_of_fails hfails] at he
      cases he

theorem Spoils.breaks (hspoils : f.Spoils q o transactions hash) : f.BreaksOff q o transactions := by
  obtain ⟨hasks, v, hgets, e, he⟩ := hspoils
  exact .told hasks ((told_of_gets hgets).trans he)

/-! ## What is detected in a block -/

/-- Whether the transaction has the hash, up to letter case. -/
def isNamed (name : Text) (transaction : Json) : Bool :=
  match transaction.member? "hash" with
  | some (.str hash) => lower hash == name
  | _ => false

/-- Of the transactions that have a hash up to letter case, the last one is picked. -/
theorem get?_withHashIn (hashes : List Text) (transactions : List Json) (name : Text) :
    (withHashIn hashes transactions).get? name =
      if name ∈ hashes then transactions.reverse.find? (isNamed name) else none := by
  induction transactions using List.reverseRecOn with
  | nil => simp [withHashIn, OrderedMap.get?]
  | append_singleton transactions t ih =>
    rw [withHashIn, List.foldl_append, ← withHashIn, List.foldl_cons, List.foldl_nil, List.reverse_append,
      List.reverse_singleton, List.singleton_append, List.find?_cons]
    split
    · rename_i hash hhash
      have hnamed : isNamed name t = (lower hash == name) := by simp only [isNamed, hhash]
      rw [hnamed]
      by_cases hname : lower hash = name
      · subst hname
        rw [beq_self_eq_true]
        by_cases hin : lower hash ∈ hashes
        · rw [if_pos (by simpa using hin), if_pos hin, OrderedMap.get?, OrderedMap.lookup_insert_self]
        · rw [if_neg (by simpa using hin), ih, if_neg hin, if_neg hin]
      · have hother : (lower hash == name) = false := by simpa using hname
        rw [hother, ← ih]
        split
        · exact OrderedMap.lookup_insert_other _ (Ne.symm hname) t
        · rfl
    · rename_i hnone
      have hunnamed : isNamed name t = false := by
        unfold isNamed
        split
        · rename_i hash hhash
          exact (hnone hash hhash).elim
        · rfl
      rw [hunnamed, ih]

/-- From some journal, the detection of inner calls in the block yields the transaction under the name. -/
def Detects (f : Fetcher) (s : Strategy) (o : Outside) (n : Int) (transactions : List Json) (name : Text) (t : Json) :
    Prop :=
  ∃ past found, (f.innerCalls s n transactions o past).1 = .ok found ∧ found.get? name = some t

/-- All transactions that are asked about and told to reach the target are detected, or something breaks and
none is. -/
theorem innerCalls_told (f : Fetcher) (n : Int) (transactions : List Json) (hq : s.Inquires q) (ho : o.Told answer) :
    Ends o (f.innerCalls s n transactions)
      (fun found => (f.BreaksOff q o transactions ∧ found = []) ∨
        ¬ f.BreaksOff q o transactions ∧ ∃ hashes : List Text,
          (∀ k, k ∈ hashes ↔ AsksAbout (.str f.target) transactions k ∧ f.told q o k = .ok true) ∧
          found = withHashIn hashes transactions)
      fun _ _ => f.BreaksOff q o transactions := by
  obtain ⟨test, hblock, htest⟩ := hq.exists_test f.client (.str f.target)
  have htold : ∀ hash j, (test hash o j).1 = f.told q o hash := fun hash j => (htest hash o j).trans (told_eq hq ho)
  have hends := indirectHashes_told (fun hash (_ : AsksAbout (.str f.target) transactions hash) => htold hash) []
  rw [← hblock (.int n)] at hends
  unfold innerCalls
  refine .bind (.attempt (R := fun r => (∃ e, r = .error e ∧ f.BreaksOff q o transactions) ∨
    ∃ hashes, r = .ok hashes ∧ ¬ f.BreaksOff q o transactions ∧
      ∀ k, k ∈ hashes ↔ AsksAbout (.str f.target) transactions k ∧ f.told q o k = .ok true) ?_) ?_
  · exact hends.mono (fun hashes h => .inr ⟨hashes, rfl, h.1, by simpa using h.2⟩) fun e _ h => .inl ⟨e, rfl, h⟩
  · rintro _ (⟨e, rfl, hbreaks⟩ | ⟨hashes, rfl, hreads, hmem⟩)
    · exact .after_logWritten (.pure (.inl ⟨hbreaks, rfl⟩))
    · exact .pure (.inr ⟨hreads, hashes, hmem, rfl⟩)

/-- **What is detected in a block** is the transactions that are asked about and told to reach the target,
if nothing in the block breaks, and nothing otherwise. -/
theorem detects_iff (hq : s.Inquires q) (ho : o.Told answer) : f.Detects s o n transactions name t ↔
    ¬ f.BreaksOff q o transactions ∧ AsksAbout (.str f.target) transactions name ∧
      f.told q o name = .ok true ∧ transactions.reverse.find? (isNamed name) = some t := by
  have hends := innerCalls_told f n transactions hq ho
  constructor
  · rintro ⟨past, found, hfound, hname⟩
    rcases hends.ok (Prod.ext hfound rfl) with ⟨-, rfl⟩ | ⟨hreads, hashes, hmem, rfl⟩
    · cases hname
    · rw [get?_withHashIn] at hname
      split at hname
      · rename_i hin
        exact ⟨hreads, ((hmem name).mp hin).1, ((hmem name).mp hin).2, hname⟩
      · cases hname
  · rintro ⟨hreads, hasks, htold, ht⟩
    rcases hends.cases [] with ⟨found, j, hrun, hfound⟩ | ⟨_, _, _, hbreaks⟩
    · rcases hfound with ⟨hbreaks, -⟩ | ⟨-, hashes, hmem, rfl⟩
      · exact absurd hbreaks hreads
      · refine ⟨[], _, congrArg Prod.fst hrun, ?_⟩
        rw [get?_withHashIn, if_pos ((hmem name).mpr ⟨hasks, htold⟩), ht]
    · exact absurd hbreaks hreads

/-- An answer that spoils the block costs all that would be detected in it. -/
theorem not_detects_of_spoils (hq : s.Inquires q) (ho : o.Told answer) (hspoils : f.Spoils q o transactions h) :
    ¬ f.Detects s o n transactions name t := fun hdetects =>
  ((detects_iff hq ho).mp hdetects).1 hspoils.breaks

/-- **What one answer costs.** Two endpoints reply to all requests in the same way but to the one about a hash.
Then the same is detected in the block apart from that hash, if what they answer about it spoils the block
at both of them or at neither; and if it spoils the block at one of them, only if nothing is detected apart
from the hash at the other one either. -/
theorem detects_apart_iff (hq : s.Inquires q) (ho : o.Told answer) (ho' : o'.Told answer')
    (hpauses : o'.pauseLimit? = o.pauseLimit?)
    (hsame : ∀ request, request ≠ q.request h → answer request = answer' request)
    (hanswered : f.client.Answered o (q.request h)) (hanswered' : f.client.Answered o' (q.request h)) :
    (∀ name t, name ≠ h → (f.Detects s o n transactions name t ↔ f.Detects s o' n transactions name t)) ↔
      ((f.Spoils q o transactions h ↔ f.Spoils q o' transactions h) ∨
        ∀ name t, name ≠ h → ¬ f.Detects s o n transactions name t ∧ ¬ f.Detects s o' n transactions name t) := by
  have htold : ∀ k, k ≠ h → f.told q o k = f.told q o' k := fun k hk =>
    told_congr hq ho ho' hpauses (hsame _ fun heq => hk (hq.request_injective heq))
  constructor
  · intro hagree
    by_cases hboth : f.Spoils q o transactions h ↔ f.Spoils q o' transactions h
    · exact .inl hboth
    · refine .inr fun name t hname => ?_
      rw [← hagree name t hname, and_self]
      by_cases hspoils : f.Spoils q o transactions h
      · exact not_detects_of_spoils hq ho hspoils
      · have hspoils' : f.Spoils q o' transactions h := by
          by_contra hneither
          exact hboth (iff_of_false hspoils hneither)
        rw [hagree name t hname]
        exact not_detects_of_spoils hq ho' hspoils'
  · rintro (hboth | hnone) name t hname
    · have hbreaks : f.BreaksOff q o transactions ↔ f.BreaksOff q o' transactions := by
        by_cases hspoils : f.Spoils q o transactions h
        · exact iff_of_true hspoils.breaks (hboth.mp hspoils).breaks
        · have hreads := (spoils_iff hanswered).not.mp hspoils
          have hreads' := (spoils_iff hanswered').not.mp fun hspoils' => hspoils (hboth.mpr hspoils')
          exact ⟨fun hb => hb.congr htold hreads, fun hb => hb.congr (fun k hk => (htold k hk).symm) hreads'⟩
      rw [detects_iff hq ho, detects_iff hq ho', hbreaks, htold name hname]
    · exact iff_of_false (hnone name t hname).1 (hnone name t hname).2

/-! ## Two traces -/

/-- The hash that is traced by a request with these parameters. -/
def tracedHash? : Json → Option Text
  | .arr [.str hash, .obj [(name, .str tracer)]] =>
    if name == "tracer" && tracer == "callTracer" then some hash else none
  | _ => none

/-- A trace of one transaction that calls the address, and one of another transaction as given. -/
def tracedAs? (second : Option Json) (request : Request) : Option Json :=
  if request.method == "debug_traceTransaction" then
    (tracedHash? request.params).bind fun hash =>
      if hash == "0x0b" then second else if hash == "0x0a" then some (.obj [("to", .str Sample.address)]) else none
  else none

def tracing (second : Option Json) : Outside := Client.answering (tracedAs? second)

/-- The transaction of the hash, which names no recipient. -/
def unaddressed (hash : Text) : Json := .obj [("hash", .str hash), ("to", .null)]

def tracedPair : List Json := [unaddressed "0x0a", unaddressed "0x0b"]

/-- A trace whose recipient is no text. -/
def oddTrace : Json := .obj [("to", .int 5)]

theorem tracedHash?_eq_some {params : Json} {hash : Text} (heq : tracedHash? params = some hash) :
    params = .arr [.str hash, Client.callTracer] := by
  unfold tracedHash? at heq
  split at heq
  · split at heq
    · rename_i hnames
      cases heq
      simp only [Bool.and_eq_true, beq_iff_eq] at hnames
      rw [hnames.1, hnames.2]
      rfl
    · cases heq
  · cases heq

theorem tracing_told (second : Option Json) : (tracing second).Told ((tracing second).reply []) := fun _ _ _ => rfl

theorem tracing_reply {second second' : Option Json} {past : List Request} {request : Request}
    (hne : request ≠ Inquiry.trace.request "0x0b") :
    (tracing second).reply past request = (tracing second').reply past request := by
  have hsame : tracedAs? second request = tracedAs? second' request := by
    obtain ⟨method, params⟩ := request
    unfold tracedAs?
    split
    · rename_i hmethod
      cases hhash : tracedHash? params with
      | none => rfl
      | some hash =>
        have hother : (hash == "0x0b") = false := by
          rw [beq_eq_false_iff_ne]
          rintro rfl
          refine hne ?_
          rw [tracedHash?_eq_some hhash, show method = "debug_traceTransaction" from beq_iff_eq.mp hmethod]
          rfl
        simp only [Option.bind_some, hother]
        rfl
    · rfl
  simp only [tracing, Client.answering, hsame]

theorem gets_first (second : Option Json) : Sample.client.Gets (tracing second)
    (Inquiry.trace.request "0x0a").method (Inquiry.trace.request "0x0a").params (.obj [("to", .str Sample.address)]) :=
  Client.gets_answering (k := 4) rfl rfl

theorem gets_second (v : Json) : Sample.client.Gets (tracing (some v))
    (Inquiry.trace.request "0x0b").method (Inquiry.trace.request "0x0b").params v :=
  Client.gets_answering (k := 4) rfl rfl

theorem fails_second : Sample.client.Fails (tracing none)
    (Inquiry.trace.request "0x0b").method (Inquiry.trace.request "0x0b").params :=
  Client.fails_answering (k := 4) rfl rfl

theorem asksAbout_tracedPair {hash : Text} :
    AsksAbout (.str Sample.address) tracedPair hash ↔ hash = "0x0a" ∨ hash = "0x0b" := by
  have hfirst : indirectHash? (.str Sample.address) (unaddressed "0x0a") = .ok (some "0x0a") := rfl
  have hsecond : indirectHash? (.str Sample.address) (unaddressed "0x0b") = .ok (some "0x0b") := rfl
  simp [AsksAbout, tracedPair, hfirst, hsecond, eq_comm]

/-- Unless the second trace spoils the block, the first transaction is detected. -/
theorem detects_first {second : Option Json}
    (hreads : ∀ e, (sampleFetcher .traceTransaction).told .trace (tracing second) "0x0b" ≠ .error e) :
    (sampleFetcher .traceTransaction).Detects .traceTransaction (tracing second) 1 tracedPair "0x0a"
      (unaddressed "0x0a") := by
  have htree : CallTree.WellTyped (.obj [("to", .str Sample.address)]) :=
    CallTree.wellTyped_leaf (.inr ⟨_, rfl⟩) rfl
  have hcalls : (CallTree.recipients (.obj [("to", .str Sample.address)])).any (Address.names Sample.address) = true := by
    simp [CallTree.recipients, Json.memberOrNull, Sample.names_address]
  have hfirst : (sampleFetcher .traceTransaction).told .trace (tracing second) "0x0a" = .ok true :=
    (told_of_tree (f := sampleFetcher .traceTransaction) (gets_first second) htree).trans (congrArg _ hcalls)
  rw [detects_iff .trace (tracing_told second)]
  refine ⟨fun hbreaks => ?_, asksAbout_tracedPair.mpr (.inl rfl), hfirst, rfl⟩
  cases hbreaks with
  | transaction ht he =>
    simp only [tracedPair, List.mem_cons, List.not_mem_nil, or_false] at ht
    rcases ht with rfl | rfl <;> cases he
  | told hasked he =>
    rcases asksAbout_tracedPair.mp hasked with rfl | rfl
    · rw [hfirst] at he
      cases he
    · exact hreads _ he

/-- One request failed and one trace of nothing: both cost nothing but themselves. -/
theorem detects_apart_failed :
    (∀ past request, request ≠ Inquiry.trace.request "0x0b" →
      (tracing none).reply past request = (tracing (some (.obj []))).reply past request) ∧
    (sampleFetcher .traceTransaction).Detects .traceTransaction (tracing none) 1 tracedPair "0x0a"
      (unaddressed "0x0a") ∧
    ∀ (name : Text) t, name ≠ "0x0b" →
      ((sampleFetcher .traceTransaction).Detects .traceTransaction (tracing none) 1 tracedPair name t ↔
        (sampleFetcher .traceTransaction).Detects .traceTransaction (tracing (some (.obj []))) 1 tracedPair
          name t) := by
  have hnone : (sampleFetcher .traceTransaction).told .trace (tracing none) "0x0b" = .ok false :=
    told_of_fails (f := sampleFetcher .traceTransaction) fails_second
  have hempty : (sampleFetcher .traceTransaction).told .trace (tracing (some (.obj []))) "0x0b" = .ok false :=
    told_of_gets (f := sampleFetcher .traceTransaction) (gets_second (.obj []))
  have hfails : Sample.client.Answered (tracing none) (Inquiry.trace.request "0x0b") := .inr fails_second
  have hgets : Sample.client.Answered (tracing (some (.obj []))) (Inquiry.trace.request "0x0b") :=
    .inl ⟨_, gets_second (.obj [])⟩
  refine ⟨fun _ _ => tracing_reply, detects_first (by simp [hnone]), ?_⟩
  refine (detects_apart_iff (f := sampleFetcher .traceTransaction) .trace (tracing_told none)
    (tracing_told (some (.obj []))) rfl (fun _ => tracing_reply) hfails hgets).mpr (.inl (iff_of_false ?_ ?_))
  · rw [spoils_iff hfails, hnone]
    simp
  · rw [spoils_iff hgets, hempty]
    simp

/-- **A trace can spoil a block.** The endpoints reply in the same way but to one request; where that fails,
another transaction is detected, and where it is answered with an odd trace, none is. -/
theorem trace_spoils_block :
    (∀ past request, request ≠ Inquiry.trace.request "0x0b" →
      (tracing none).reply past request = (tracing (some oddTrace)).reply past request) ∧
    (sampleFetcher .traceTransaction).Detects .traceTransaction (tracing none) 1 tracedPair "0x0a"
      (unaddressed "0x0a") ∧
    ∀ name t, ¬ (sampleFetcher .traceTransaction).Detects .traceTransaction (tracing (some oddTrace)) 1 tracedPair
      name t := by
  have hnone : (sampleFetcher .traceTransaction).told .trace (tracing none) "0x0b" = .ok false :=
    told_of_fails (f := sampleFetcher .traceTransaction) fails_second
  have hspoils : (sampleFetcher .traceTransaction).Spoils .trace (tracing (some oddTrace)) tracedPair "0x0b" :=
    ⟨asksAbout_tracedPair.mpr (.inr rfl), oddTrace, gets_second oddTrace, .noSuchPart, rfl⟩
  refine ⟨fun _ _ => tracing_reply, detects_first (by simp [hnone]), fun name t => ?_⟩
  exact not_detects_of_spoils .trace (tracing_told (some oddTrace)) hspoils

end Fetcher
end AssertionReplay
