/-
Direct calls, with tracing and without.

Which transactions call the target themselves is told by the blocks alone. Of
each of them the result of its block has the record, under its hash
(`directCalls_complete`), and tracing only adds to that. So two fetches that
get the same replies to their requests for blocks agree on every direct call,
however each of them traces (`direct_calls_kept`).
-/
import AssertionReplay.Proofs.Agreement
import AssertionReplay.Proofs.Determinacy
import AssertionReplay.Proofs.TraceAdditions

namespace AssertionReplay

open Text

namespace OrderedMap

/-- Each record stands under its own hash. -/
def Keyed (m : OrderedMap Record) : Prop := ∀ name r, m.get? name = some r → r.hash = name

theorem keyed_nil : Keyed [] := by simp [Keyed, get?]

theorem Keyed.insert {m : OrderedMap Record} (h : m.Keyed) (r : Record) : (m.insert r.hash r).Keyed := by
  intro name r' hr'
  by_cases hname : name = r.hash
  · subst hname
    rw [get?, lookup_insert_self] at hr'
    cases hr'
    rfl
  · rw [get?, lookup_insert_other m hname] at hr'
    exact h name r' hr'

theorem get?_isSome_insert {m : OrderedMap α} {name : Text} (h : (m.get? name).isSome) (other : Text) (v : α) :
    ((m.insert other v).get? name).isSome := by
  by_cases hname : name = other
  · subst hname
    rw [get?, lookup_insert_self]
    rfl
  · rwa [get?, lookup_insert_other m hname]

end OrderedMap

namespace Fetcher

open Act

variable {o o' : Outside} {f g : Fetcher} {s : Strategy} {a b n : Int} {Q : Fault → Journal → Prop}

/-! ## The direct calls of a block -/

/-- The transaction calls the address itself. -/
def Direct (address : Text) (transaction : Json) : Prop :=
  Address.names address (transaction.memberOr "to" .null) = true

theorem same_iff_direct {address : Text} {transaction recipient : Json}
    (hto : Field.member transaction "to" = .ok recipient) :
    Address.same recipient (.str address) = .ok true ↔ Direct address transaction := by
  cases transaction with
  | obj members =>
    cases hto
    exact Address.same_eq_true_iff
  | _ => cases hto

/-- **Every direct call is there**, under its hash. -/
theorem directCalls_complete {target : String} {transactions : List Json} {found m : OrderedMap Record}
    (hfound : found.Keyed) (h : directCalls target n found transactions = .ok m) :
    m.Keyed ∧ (∀ name, (found.get? name).isSome → (m.get? name).isSome) ∧
    ∀ t ∈ transactions, Direct target t →
      ∃ hash, t.member? "hash" = some (.str hash) ∧ (m.get? (lower hash)).isSome := by
  induction transactions generalizing found with
  | nil =>
    cases h
    exact ⟨hfound, fun _ h => h, by simp⟩
  | cons transaction rest ih =>
    obtain ⟨recipient, hto, h⟩ := bind_eq_ok_iff.mp h
    obtain ⟨direct, hdirect, h⟩ := bind_eq_ok_iff.mp h
    cases direct with
    | true =>
      obtain ⟨r, hr, h⟩ := bind_eq_ok_iff.mp h
      obtain ⟨hm, hkept, hall⟩ := ih (hfound.insert r) h
      refine ⟨hm, fun name hname => hkept name (OrderedMap.get?_isSome_insert hname _ _), ?_⟩
      intro t ht hcalls
      rcases List.mem_cons.mp ht with rfl | ht
      · obtain ⟨members, rfl⟩ := Record.ofTransaction_obj hr
        obtain ⟨hash, hhash, heq⟩ := (Record.ofTransaction_eq_ok_iff.mp hr).hash
        refine ⟨hash, hhash, hkept _ ?_⟩
        rw [← heq, OrderedMap.get?, OrderedMap.lookup_insert_self]
        rfl
      · exact hall t ht hcalls
    | false =>
      obtain ⟨hm, hkept, hall⟩ := ih hfound h
      refine ⟨hm, hkept, fun t ht hcalls => ?_⟩
      rcases List.mem_cons.mp ht with rfl | ht
      · cases hdirect.symm.trans ((same_iff_direct hto).mpr hcalls)
      · exact hall t ht hcalls

/-- What a block comes to without tracing. -/
def untraced (n : Int) : Except Fault (Option Content) → BlockResult
  | .ok (some c) => { block := n, ok := true, transactions := c.transactions, matched := c.direct }
  | _ => .failed n

/-- Of each direct call, the result has the record, under its hash. -/
def HasCalls (target : Text) (b : BlockResult) : Prop :=
  ∀ t ∈ b.transactions, Direct target t →
    ∃ hash r, t.member? "hash" = some (.str hash) ∧ r.hash = lower hash ∧ b.matched.get? (lower hash) = some r

theorem untraced_hasCalls {read : Except Fault (Option Content)} (hread : ∀ j, (f.contentOf n o j).1 = read) :
    HasCalls f.target (untraced n read) := by
  rcases read with e | _ | c
  · simp [HasCalls, untraced, BlockResult.failed]
  · simp [HasCalls, untraced, BlockResult.failed]
  · intro t ht hcalls
    have hmatched : c.Matched f.target := (contentOf_matched n).ok (Prod.ext (hread []) rfl) c rfl
    obtain ⟨hkeyed, -, hall⟩ := directCalls_complete OrderedMap.keyed_nil hmatched
    obtain ⟨hash, hhash, hsome⟩ := hall t ht hcalls
    obtain ⟨r, hr⟩ := Option.isSome_iff_exists.mp hsome
    exact ⟨hash, r, hhash, hkeyed _ _ hr, hr⟩

/-! ## Tracing adds -/

theorem fetchBlock_of_read {read : Except Fault (Option Content)} (hread : ∀ j, (f.contentOf n o j).1 = read)
    {P : BlockResult → Prop} (hnone : (∀ c, read ≠ .ok (some c)) → P (.failed n))
    (hsome : ∀ c, read = .ok (some c) → Act.Ends o (f.matchContent s n c) P Q) :
    Act.Ends o (f.fetchBlock s n) P Q := by
  refine .of_cases fun past => ?_
  by_cases h : ∃ c, read = .ok (some c)
  · obtain ⟨c, hc⟩ := h
    rw [fetchBlock_of_content s (Prod.ext ((hread past).trans hc) rfl)]
    exact (hsome c hc).cases _
  · have hno : ∀ c, read ≠ .ok (some c) := fun c hc => h ⟨c, hc⟩
    have hfailed := fetchBlock_of_no_content (s := s) n past fun c hc => hno c ((hread past).symm.trans hc)
    exact .inl ⟨_, _, Prod.ext hfailed rfl, hnone hno⟩

theorem untraced_of_no_content {read : Except Fault (Option Content)} (h : ∀ c, read ≠ .ok (some c)) :
    untraced n read = .failed n := by
  rcases read with e | _ | c
  · rfl
  · rfl
  · exact absurd rfl (h c)

theorem matchContent_extends (n : Int) (c : Content) :
    Act.Ends o (f.matchContent s n c) (untraced n (.ok (some c))).Extends Q := by
  unfold matchContent
  refine .bind (innerCalls_ends_any _ _) fun inner _ => .bind (addInner_keeps _ _ _) fun matched hmatched => ?_
  have hextends : (untraced n (.ok (some c))).Extends
      { block := n, ok := true, transactions := c.transactions, matched } := ⟨rfl, rfl, rfl, hmatched⟩
  split
  · exact .after_logWritten (.pure hextends)
  · exact .pure hextends

/-- However it is traced, a block has what it has untraced. -/
theorem fetchBlock_extends {read : Except Fault (Option Content)} (hread : ∀ j, (f.contentOf n o j).1 = read) :
    Act.Ends o (f.fetchBlock s n) (untraced n read).Extends Q := by
  refine fetchBlock_of_read hread (fun hno => ?_) fun c hc => ?_
  · rw [untraced_of_no_content hno]
    exact .refl _
  · rw [hc]
    exact matchContent_extends n c

theorem innerCalls_direct (transactions : List Json) :
    Act.Ends o (f.innerCalls .direct n transactions) (· = []) Q := by
  have hnone : withHashIn [] transactions = [] := by
    unfold withHashIn
    induction transactions with
    | nil => rfl
    | cons t rest ih =>
      rw [List.foldl_cons]
      split <;> exact ih
  refine .bind_eq (a := .ok []) (.pure rfl) ?_
  exact .pure hnone

theorem matchContent_direct (n : Int) (c : Content) :
    Act.Ends o (f.matchContent .direct n c) (· = untraced n (.ok (some c))) Q := by
  unfold matchContent
  refine .bind_eq (innerCalls_direct _) ?_
  refine .bind_eq (a := c.direct) (.pure rfl) ?_
  split
  · exact .after_logWritten (.pure rfl)
  · exact .pure rfl

theorem fetchBlock_direct {read : Except Fault (Option Content)} (hread : ∀ j, (f.contentOf n o j).1 = read) :
    Act.Ends o (f.fetchBlock .direct n) (· = untraced n read) Q := by
  refine fetchBlock_of_read hread (fun hno => (untraced_of_no_content hno).symm) fun c hc => ?_
  rw [hc]
  exact matchContent_direct n c

variable {read : Int → Except Fault (Option Content)}

/-- **However it traces, a fetch has what the blocks have untraced.** -/
theorem fetch_extends {cap : Capability} (hc : f.chosen? = some cap) {size : Int} (hf : f.Sized size) (h0 : 0 ≤ a)
    (hab : a ≤ b) (hread : ∀ n j, (f.contentOf n o j).1 = read n) :
    f.Returns o a b (Fetched.Covers (fun n r => (untraced n (read n)).Extends r) a b) :=
  fetch_of_blocks hc hf h0 hab (fun _ _ _ _ => .trans) fun n _ _ => fetchBlock_extends (hread n)

/-- Without tracing, it has nothing else. -/
theorem fetch_untraced (hc : f.chosen? = some .directCallsOnly) (hfallback : f.receiptFallback = false) {size : Int}
    (hf : f.Sized size) (h0 : 0 ≤ a) (hab : a ≤ b) (hread : ∀ n j, (f.contentOf n o j).1 = read n) :
    f.Returns o a b (Fetched.Covers (fun n r => r = untraced n (read n)) a b) := by
  refine fetch_of_blocks hc hf h0 hab (fun h => ?_) fun n _ _ => ?_
  · rw [hfallback] at h
    cases h
  · rw [hfallback]
    exact fetchBlock_direct (hread n)

/-! ## Two fetches -/

/-- The results agree on the block, and on every transaction that calls the target itself. -/
structure Agree (target : Text) (b b' : BlockResult) : Prop where
  block : b'.block = b.block
  ok : b'.ok = b.ok
  transactions : b'.transactions = b.transactions
  direct : ∀ t ∈ b.transactions, Direct target t → ∃ hash r, t.member? "hash" = some (.str hash) ∧
    r.hash = lower hash ∧ b.matched.get? (lower hash) = some r ∧ b'.matched.get? (lower hash) = some r

theorem HasCalls.agree {target : Text} {u b b' : BlockResult} (h : HasCalls target u) (hb : u.Extends b)
    (hb' : u.Extends b') : Agree target b b' where
  block := hb'.block.trans hb.block.symm
  ok := hb'.ok.trans hb.ok.symm
  transactions := hb'.transactions.trans hb.transactions.symm
  direct := by
    intro t ht hcalls
    rw [hb.transactions] at ht
    obtain ⟨hash, r, hhash, heq, hr⟩ := h t ht hcalls
    exact ⟨hash, r, hhash, heq, hb.matched _ _ hr, hb'.matched _ _ hr⟩

/-- **Tracing costs no direct call.** The endpoints of two fetches reply to the requests for blocks in the
same way, and to all others in any way. Both fetches return, and agree on every block and on every direct
call; and the second one has all the records of the first one if that did not trace. -/
theorem direct_calls_kept {client : Client} {target : Json} {size conc size' conc' : Int}
    {detect detect' fallback fallback' bar bar' : Bool} {capability? capability'? : Option Capability}
    (hf : create client target (.int size) (.int conc) detect fallback capability? bar = .ok f)
    (hg : create client target (.int size') (.int conc') detect' fallback' capability'? bar' = .ok g)
    {cap cap' : Capability} (hc : f.chosen? = some cap) (hc' : g.chosen? = some cap') {answer : Request → Reply}
    (ho : ∀ past request, AsksBlock request → o.reply past request = answer request)
    (ho' : ∀ past request, AsksBlock request → o'.reply past request = answer request)
    (hpauses : o'.pauseLimit? = o.pauseLimit?) {a b : Int} (h0 : 0 ≤ a) (hab : a ≤ b) :
    f.Returns o a b fun r => g.Returns o' a b fun r' =>
      List.Forall₂ (Agree f.target) r.blocks r'.blocks ∧
        (cap = .directCallsOnly → fallback = false →
          List.Forall₂ (fun b b' => b.matched.Within b'.matched) r.blocks r'.blocks) := by
  have hfallback := receiptFallback_of_create hf
  obtain ⟨hsame, -⟩ := create_same hf hg
  -- What the blocks hold is the same for both.
  choose read hread using fun n => contentOf_settled answer o.pauseLimit? f n fun _ h => h
  have hf_read : ∀ n j, (f.contentOf n o j).1 = read n := fun n => hread n o ⟨ho, rfl⟩
  have hg_read : ∀ n j, (g.contentOf n o' j).1 = read n := hsame ▸ fun n => hread n o' ⟨ho', hpauses⟩
  have hextends' := fetch_extends hc' (sized_of_create hg) h0 hab hg_read
  by_cases hdirect : cap = .directCallsOnly ∧ fallback = false
  · obtain ⟨rfl, hnone⟩ := hdirect
    refine (fetch_untraced hc (hfallback.trans hnone) (sized_of_create hf) h0 hab hf_read).imp fun r h => ?_
    refine hextends'.imp fun r' h' => ?_
    have huntraced : List.Forall₂ (fun b b' => ∃ n, b = untraced n (read n) ∧ (untraced n (read n)).Extends b')
        r.blocks r'.blocks := forall₂_trans (fun b n b' hb hb' => ⟨n, hb, hb'⟩) h.1.flip h'.1
    refine ⟨huntraced.imp fun b b' hb => ?_, fun _ _ => huntraced.imp fun b b' hb => ?_⟩
    · obtain ⟨n, rfl, hb'⟩ := hb
      exact (untraced_hasCalls (hf_read n)).agree (.refl _) hb'
    · obtain ⟨n, rfl, hb'⟩ := hb
      exact hb'.matched
  · refine (fetch_extends hc (sized_of_create hf) h0 hab hf_read).imp fun r h => hextends'.imp fun r' h' => ?_
    refine ⟨forall₂_trans (fun b n b' hb hb' => ?_) h.1.flip h'.1, fun hcap hnone => ?_⟩
    · exact (untraced_hasCalls (hf_read n)).agree hb hb'
    · exact absurd ⟨hcap, hnone⟩ hdirect

/-- The truth about the blocks of the sample, with an error for every trace. -/
def mistaken : Outside := Sample.endpoint (fun _ => false) fun _ => true

theorem mistaken_reply (past : List Request) (request : Request) (h : AsksBlock request) :
    mistaken.reply past request = Sample.truthful.reply [] request := by
  have hanswer : ∀ missed, Sample.answer? (fun _ => false) missed request =
      (Sample.numbered? request.params).bind fun n => some (Sample.blockObject n) := by
    intro missed
    rw [Sample.answer?, show request.method = "eth_getBlockByNumber" from h, if_pos (beq_self_eq_true _)]
    rfl
  simp only [mistaken, Sample.truthful, Sample.endpoint, Client.answering, hanswer]

/-- The sample without tracing, and with traces that all fail. -/
theorem direct_calls_kept_sample :
    (create Sample.client (.str Sample.address) (.int 1) (.int 2) true false (some .directCallsOnly) false =
        .ok (sampleFetcher .directCallsOnly) ∧
      create Sample.client (.str Sample.address) (.int 1) (.int 2) true false (some .traceBlock) false =
        .ok (sampleFetcher .traceBlock) ∧
      (sampleFetcher .directCallsOnly).chosen? = some .directCallsOnly ∧
      (sampleFetcher .traceBlock).chosen? = some .traceBlock ∧
      (∀ past request, AsksBlock request →
        Sample.truthful.reply past request = Sample.truthful.reply [] request) ∧
      (∀ past request, AsksBlock request → mistaken.reply past request = Sample.truthful.reply [] request) ∧
      mistaken.pauseLimit? = Sample.truthful.pauseLimit? ∧
      (0 : Int) ≤ 1 ∧ (1 : Int) ≤ 2) ∧
    ∃ r j, (sampleFetcher .directCallsOnly).fetch (.int 1) (.int 2) Sample.truthful [] = (.ok r, j) ∧
      r.records = [(Sample.mined "0xD1" 1 0 true).record, (Sample.mined "0xD4" 2 0 true).record] ∧
      Act.Ensures mistaken ((sampleFetcher .traceBlock).fetch (.int 1) (.int 2)) fun r' =>
        List.Forall₂ (Agree Sample.address) r.blocks r'.blocks ∧
          List.Forall₂ (fun b b' => b.matched.Within b'.matched) r.blocks r'.blocks := by
  have hf := sampleFetcher_created .directCallsOnly
  have hg := sampleFetcher_created .traceBlock
  have hsame : ∀ past request, AsksBlock request →
      Sample.truthful.reply past request = Sample.truthful.reply [] request := fun _ _ _ => rfl
  refine ⟨⟨hf, hg, rfl, rfl, hsame, mistaken_reply, rfl, by decide, by decide⟩, ?_⟩
  have hserved : Sample.chain.Served Sample.truthful (sampleFetcher .directCallsOnly).client (fun _ => false) 1 2 :=
    Sample.served (by decide)
  have htells : Sample.chain.Tells Sample.truthful (sampleFetcher .directCallsOnly).client (fun _ => false) 1 2
    (.of .directCallsOnly false) := trivial
  have hfetch := fetch_tells (f := sampleFetcher .directCallsOnly) rfl (sized_of_create hf) (by decide)
    (by decide) (by decide) hserved htells
  obtain ⟨r, hr, hrecords, -⟩ := hfetch.ensures rfl []
  refine ⟨r, _, Prod.ext hr rfl, ?_, ?_⟩
  · have hfound : ∀ n hash position direct, found Sample.address .direct (fun _ => false) (fun _ => false) n
        (Sample.mined hash n position direct) = direct := by
      intro n hash position direct
      simp [found, Sample.calls_mined, Strategy.looksFor]
    rw [hrecords]
    show Sample.chain.records (found Sample.address .direct _ _) 1 2 = _
    rw [Sample.records_eq]
    simp [Sample.blockOne, Sample.blockTwo, hfound]
  · have hkept := direct_calls_kept hf hg rfl rfl hsame mistaken_reply rfl (by decide : (0 : Int) ≤ 1)
      (by decide : (1 : Int) ≤ 2)
    exact ((hkept.ends.ok (Prod.ext hr rfl)).imp fun r' h => ⟨h.1, h.2 rfl rfl⟩).ensures rfl

end Fetcher
end AssertionReplay
