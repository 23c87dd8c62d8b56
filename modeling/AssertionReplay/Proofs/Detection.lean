/-
What each strategy detects.

From the truth about a chain, a strategy finds just the transactions that it
is to find: those whose call tree reaches the target, or whose logs it
emitted, and that are not missed. A strategy for blocks answers for a block
(`Strategy.Finds`), the one for ranges for a whole batch (`batchHashes_ends`).
-/
import AssertionReplay.Proofs.Serving

namespace AssertionReplay

open Text

theorem Json.orElse_arr (items : List Json) : (Json.arr items).orElse (.arr []) = .arr items := by
  cases items <;> rfl

namespace Strategy

variable {o : Outside} {c : Client} {address : Text} {Q : Fault → Journal → Prop}

theorem mem_addHash {hashes : List Text} {hash k : Text} :
    k ∈ addHash hashes hash ↔ k ∈ hashes ∨ k = hash := by
  unfold addHash
  split
  · rename_i h
    have hmem : hash ∈ hashes := by simpa using h
    constructor
    · exact .inl
    · intro h
      rcases h with hk | rfl
      · exact hk
      · exact hmem
  · simp

/-- The strategy finds the transactions of a block that are no direct calls, and of which `inner`
holds. -/
def Finds (s : Strategy) (o : Outside) (c : Client) (address : Text) (n : Int) (ts : List Mined)
    (inner : Mined → Bool) : Prop :=
  Act.Ensures o (s.blockHashes c (.str address) (.int n) (ts.map (·.object))) fun hashes =>
    ∀ t ∈ ts, t.calls address = false → (t.key ∈ hashes ↔ inner t = true)

/-! ## Transaction by transaction -/

/-- The hash is that of a transaction of the block that is no direct call, so that it is asked about. -/
def AsksAbout (target : Json) (transactions : List Json) (hash : Text) : Prop :=
  ∃ t ∈ transactions, indirectHash? target t = .ok (some hash)

/-- What goes through the transactions cannot go to the end of them: it cannot read one of them, or what
comes of asking about one. -/
inductive Breaks (target : Json) (told : Text → Except Fault Bool) (transactions : List Json) : Prop
  | transaction {t : Json} {e : Fault} (ht : t ∈ transactions) (he : indirectHash? target t = .error e)
  | told {hash : Text} {e : Fault} (hasked : AsksAbout target transactions hash) (he : told hash = .error e)

section

variable {target t : Json} {told : Text → Except Fault Bool} {transactions rest : List Json} {k : Text}

theorem asksAbout_cons_iff : AsksAbout target (t :: rest) k ↔
    indirectHash? target t = .ok (some k) ∨ AsksAbout target rest k := by
  simp [AsksAbout]

theorem breaks_cons_iff : Breaks target told (t :: rest) ↔ (∃ e, indirectHash? target t = .error e) ∨
    (∃ hash e, indirectHash? target t = .ok (some hash) ∧ told hash = .error e) ∨ Breaks target told rest := by
  constructor
  · intro hbreaks
    cases hbreaks with
    | transaction hu he =>
      rcases List.mem_cons.mp hu with rfl | hu
      · exact .inl ⟨_, he⟩
      · exact .inr (.inr (.transaction hu he))
    | told hasked he =>
      rcases asksAbout_cons_iff.mp hasked with hhash | hasked
      · exact .inr (.inl ⟨_, _, hhash, he⟩)
      · exact .inr (.inr (.told hasked he))
  · rintro (⟨e, he⟩ | ⟨hash, e, hhash, he⟩ | hbreaks)
    · exact .transaction List.mem_cons_self he
    · exact .told (asksAbout_cons_iff.mpr (.inl hhash)) he
    · cases hbreaks with
      | transaction hu he => exact .transaction (List.mem_cons_of_mem t hu) he
      | told hasked he => exact .told (asksAbout_cons_iff.mpr (.inr hasked)) he

/-- **Transaction by transaction.** What is found is the hashes that are asked about and told to reach the
target, unless something breaks. -/
theorem indirectHashes_told {test : Text → Act Bool}
    (htest : ∀ hash, AsksAbout target transactions hash → ∀ j, (test hash o j).1 = told hash) (hashes : List Text) :
    Act.Ends o (indirectHashes target test hashes transactions)
      (fun found => ¬ Breaks target told transactions ∧
        ∀ k, k ∈ found ↔ k ∈ hashes ∨ AsksAbout target transactions k ∧ told k = .ok true)
      fun _ _ => Breaks target told transactions := by
  induction transactions generalizing hashes with
  | nil =>
    refine .pure ⟨fun hbreaks => ?_, by simp [AsksAbout]⟩
    cases hbreaks with
    | transaction ht _ => cases ht
    | told hasked _ => simp [AsksAbout] at hasked
  | cons t rest ih =>
    have ih := ih fun hash hasks => htest hash (asksAbout_cons_iff.mpr (.inr hasks))
    unfold indirectHashes
    cases hhash : indirectHash? target t with
    | error e => exact fun _ => breaks_cons_iff.mpr (.inl ⟨e, hhash⟩)
    | ok hash? =>
      rw [Act.lift_ok_bind]
      cases hash? with
      | none =>
        have hbreaks : Breaks target told (t :: rest) ↔ Breaks target told rest := by simp [breaks_cons_iff, hhash]
        have hasks : ∀ k, AsksAbout target (t :: rest) k ↔ AsksAbout target rest k := by
          simp [asksAbout_cons_iff, hhash]
        simp only [hbreaks, hasks]
        exact ih hashes
      | some hash =>
        have hpasses : Act.Ends o (test hash) (fun passed => told hash = .ok passed)
            fun _ _ => Breaks target told (t :: rest) :=
          (Act.Ends.of_eq (htest hash (asksAbout_cons_iff.mpr (.inl hhash)))).mono (fun _ h => h) fun e _ he =>
            breaks_cons_iff.mpr (.inr (.inl ⟨hash, e, hhash, he⟩))
        refine hpasses.bind fun passed hpassed => ?_
        have hbreaks : Breaks target told (t :: rest) ↔ Breaks target told rest := by
          simp [breaks_cons_iff, hhash, hpassed]
        have hadds : ∀ k, (AsksAbout target (t :: rest) k ∧ told k = .ok true) ↔
            (k = hash ∧ passed = true) ∨ AsksAbout target rest k ∧ told k = .ok true := fun k => by
          rw [asksAbout_cons_iff, hhash, Except.ok.injEq, Option.some.injEq, @eq_comm _ hash, or_and_right]
          refine or_congr_left (and_congr_right fun hk => ?_)
          rw [hk, hpassed, Except.ok.injEq]
        simp only [hbreaks, hadds]
        cases passed with
        | true =>
          refine (ih (addHash hashes hash)).imp fun found hfound => ⟨hfound.1, fun k => ?_⟩
          rw [hfound.2 k, mem_addHash, or_assoc, and_iff_left rfl]
        | false =>
          refine (ih hashes).imp fun found hfound => ⟨hfound.1, fun k => ?_⟩
          rw [hfound.2 k]
          simp

end

theorem indirectHash?_eq {t : Mined} {n : Int} {i : Nat} (h : t.At n i) :
    indirectHash? (.str address) t.object = .ok (if t.calls address then none else some t.key) := by
  have hhash : Field.member t.object "hash" = .ok (.str t.hash) := h.member_hash
  have hgiven : (Json.str t.hash).orElse (.str "") = .str t.hash := by
    simp [Json.orElse, Json.isGiven, h.named]
  have hto : Field.member t.object "to" = .ok t.recipient := h.member "to"
  simp only [indirectHash?, hhash, hto, bind, Except.bind, hgiven, Address.lowered, h.same_recipient]
  have hkey : (lower t.hash).isEmpty = false := h.key_isEmpty
  rw [hkey]
  cases t.calls address <;> rfl

theorem asksAbout_iff {ts : List Mined} {n : Int} (hat : ∀ t ∈ ts, ∃ i, t.At n i) :
    AsksAbout (.str address) (ts.map (·.object)) k ↔ ∃ t ∈ ts, t.calls address = false ∧ t.key = k := by
  simp only [AsksAbout, List.mem_map, exists_exists_and_eq_and]
  refine exists_congr fun t => and_congr_right fun ht => ?_
  obtain ⟨i, hi⟩ := hat t ht
  rw [indirectHash?_eq hi]
  cases t.calls address <;> simp

theorem finds_of_indirect {s : Strategy} {test : Text → Act Bool} {inner : Mined → Bool} {n : Int}
    {ts : List Mined}
    (hs : s.blockHashes c (.str address) (.int n) (ts.map (·.object)) =
      indirectHashes (.str address) test [] (ts.map (·.object)))
    (hat : ∀ t ∈ ts, ∃ i, t.At n i)
    (htest : ∀ t ∈ ts, t.calls address = false → Act.Ensures o (test t.key) (· = inner t)) :
    s.Finds o c address n ts inner := by
  have htold : ∀ t ∈ ts, t.calls address = false → ∀ j, (test t.key o j).1 = .ok (inner t) := fun t ht hcalls j => by
    obtain ⟨_, hrun, rfl⟩ := htest t ht hcalls j
    exact hrun
  have hsame : ∀ k, AsksAbout (.str address) (ts.map (·.object)) k → ∀ j, (test k o j).1 = (test k o []).1 := by
    rintro k hasks j
    obtain ⟨t, ht, hcalls, rfl⟩ := (asksAbout_iff hat).mp hasks
    rw [htold t ht hcalls, htold t ht hcalls]
  have hreads : ¬ Breaks (.str address) (fun k => (test k o []).1) (ts.map (·.object)) := by
    rintro (⟨hmem, he⟩ | ⟨hasks, he⟩)
    · obtain ⟨t, ht, rfl⟩ := List.mem_map.mp hmem
      obtain ⟨i, hi⟩ := hat t ht
      cases (indirectHash?_eq hi).symm.trans he
    · obtain ⟨t, ht, hcalls, rfl⟩ := (asksAbout_iff hat).mp hasks
      cases (htold t ht hcalls []).symm.trans he
  rw [Finds, hs]
  refine ((indirectHashes_told hsame []).mono (fun found hfound t ht hcalls => ?_) fun _ _ => hreads).ensures
  have hasks : AsksAbout (.str address) (ts.map (·.object)) t.key := (asksAbout_iff hat).mpr ⟨t, ht, hcalls, rfl⟩
  rw [hfound.2 t.key, htold t ht hcalls]
  simp [hasks]

/-- A call of which an own fault is logged, and a value read. -/
theorem logged_or_read {x : Act Json} {level : Level} {text : Text} {read : Json → Except Fault Bool} {j : Journal} :
    ((do
      match ← x.attemptOwn with
      | .error e =>
        Act.logFault level text e
        return false
      | .ok v => read v : Act Bool) o j).1 =
    match (x o j).1 with
    | .ok v => read v
    | .error e => if e.isOwn then .ok false else .error e := by
  rcases hx : x o j with ⟨e | v, j'⟩
  · cases hown : e.isOwn with
    | true =>
      rw [Act.bind_apply_of_ok (Act.attemptOwn_of_own hx hown)]
      exact (if_pos hown).symm
    | false =>
      have hfails : x.attemptOwn o j = (.error e, j') := by simp [Act.attemptOwn_of_error hx, hown]
      rw [Act.bind_apply_of_error hfails]
      exact (if_neg (by simp [hown])).symm
  · rw [Act.bind_apply_of_ok (Act.attemptOwn_of_ok hx)]
    simp only [Act.lift_apply]

theorem logged_or_read_ensures {x : Act Json} {read : Json → Except Fault Bool} {level : Level} {text : Text}
    {missed inner : Bool} (h : if missed then Act.Ends o x (fun _ => False) fun e _ => e.isOwn = true
      else Act.Ends o x (fun v => read v = .ok inner) fun _ _ => False) :
    Act.Ensures o (do
      match ← x.attemptOwn with
      | .error e =>
        Act.logFault level text e
        return false
      | .ok v => read v) (· = (!missed && inner)) := by
  refine fun j => ⟨_, ?_, rfl⟩
  rw [logged_or_read]
  cases missed with
  | true =>
    rcases Act.Ends.cases h j with ⟨_, _, _, hfalse⟩ | ⟨e, _, hx, hown⟩
    · exact hfalse.elim
    · rw [hx]
      exact if_pos hown
  | false =>
    rcases Act.Ends.cases h j with ⟨v, _, hx, hread⟩ | ⟨_, _, _, hfalse⟩
    · rw [hx]
      exact hread
    · exact hfalse.elim

theorem traceReaches_ensures {t : Mined} {n : Int} {i : Nat} {missed : Bool} (h : t.At n i)
    (htrace : if missed then c.Fails o "debug_traceTransaction" (.arr [.str t.key, Client.callTracer])
      else c.Gets o "debug_traceTransaction" (.arr [.str t.key, Client.callTracer]) t.tree) :
    Act.Ensures o (traceReaches c (.str address) t.key) (· = (!missed && t.reaches address)) := by
  refine logged_or_read_ensures ?_
  cases missed with
  | true => exact Client.Fails.orElse htrace
  | false =>
    refine (Client.Gets.orElse htrace).imp fun v hv => ?_
    rw [hv, CallTree.reaches_orElse, h.reaches_tree]

theorem anyEmitted_eq {entries : List Json}
    (h : ∀ entry ∈ entries, ∃ a, Field.member entry "address" = .ok a ∧ Address.Textual a) :
    anyEmitted (.str address) entries =
      .ok (entries.any fun entry => Address.names address (entry.memberOr "address" .null)) := by
  induction entries with
  | nil => rfl
  | cons entry rest ih =>
    obtain ⟨a, hmember, htextual⟩ := h entry (by simp)
    have hobj : entry.memberOr "address" .null = a := by
      cases entry <;> simp [Field.member] at hmember
      exact hmember
    rw [anyEmitted, hmember, List.any_cons, hobj, ih fun e he => h e (by simp [he])]
    simp only [bind, Except.bind, Address.same_of_textual htextual]
    cases Address.names address a <;> rfl

theorem receiptTouches_eq {receipt : Json} {entries : List Json}
    (h : ∀ entry ∈ entries, ∃ a, Field.member entry "address" = .ok a ∧ Address.Textual a)
    (hlogs : Field.member receipt "logs" = .ok (.arr entries)) :
    receiptTouches (.str address) receipt =
      .ok (entries.any fun entry => Address.names address (entry.memberOr "address" .null)) := by
  have hgiven : receipt.orElse (.obj []) = receipt := by
    cases receipt with
    | obj members => cases members <;> rfl
    | _ => simp [Field.member] at hlogs
  rw [receiptTouches, hgiven, hlogs]
  cases entries with
  | nil => rfl
  | cons entry rest => exact anyEmitted_eq h

theorem receiptReaches_ensures {t : Mined} {n : Int} {i : Nat} {missed : Bool} (h : t.At n i)
    (hreceipt : if missed then c.Fails o "eth_getTransactionReceipt" (.arr [.str t.key])
      else ∃ v, c.Gets o "eth_getTransactionReceipt" (.arr [.str t.key]) v ∧
        Field.member v "logs" = .ok (.arr t.logs)) :
    Act.Ensures o (receiptReaches c (.str address) t.key) (· = (!missed && t.emits address)) := by
  refine logged_or_read_ensures ?_
  cases missed with
  | true => exact hreceipt
  | false =>
    obtain ⟨v, hgets, hlogs⟩ := hreceipt
    refine Act.Ends.imp hgets.ends fun receipt hv => ?_
    rw [hv]
    exact receiptTouches_eq h.logs hlogs

/-! ## Frame by frame -/

variable {target frame : Json} {transactions frames : List Json} {ts : List Mined} {missed : Mined → Bool} {n : Int}
  {position : Nat} {hashes : List Text} {k : Text}

/-- The hash that a frame adds, if it adds one. Only an object without an error tells of calls. -/
def framed? (target : Json) (transactions : List Json) (position : Nat) (frame : Json) :
    Except Fault (Option Text) := do
  if Fetcher.isObject frame && !(frame.memberOr "error" .null).isGiven then
    if ← CallTree.reaches target (frame.memberOr "result" .null) then frameHash? frame transactions position
    else return none
  else return none

/-- A frame adds the hash; positions start from the one given. -/
def Framed (target : Json) (transactions : List Json) (position : Nat) (frames : List Json) (k : Text) : Prop :=
  ∃ i frame, frames[i]? = some frame ∧ framed? target transactions (position + i) frame = .ok (some k)

theorem framed?_of_silent (h : Fetcher.isObject frame = true → (frame.memberOr "error" .null).isGiven = true) :
    framed? target transactions position frame = .ok none := by
  rw [framed?, if_neg (by simpa using h)]
  rfl

theorem framed?_of_no_error (hobj : Fetcher.isObject frame = true)
    (h : (frame.memberOr "error" .null).isGiven = false) :
    framed? target transactions position frame =
      (CallTree.reaches target (frame.memberOr "result" .null)).bind fun reaches =>
        if reaches then frameHash? frame transactions position else .ok none := by
  simp only [framed?, hobj, h]
  rfl

theorem framed_cons_iff : Framed target transactions position (frame :: frames) k ↔
    framed? target transactions position frame = .ok (some k) ∨
      Framed target transactions (position + 1) frames k := by
  constructor
  · rintro ⟨i, frame', hi, hframe⟩
    cases i with
    | zero =>
      cases hi
      exact .inl hframe
    | succ i => exact .inr ⟨i, frame', by simpa using hi, by rwa [Nat.add_right_comm]⟩
  · rintro (hframe | ⟨i, frame', hi, hframe⟩)
    · exact ⟨0, frame, rfl, hframe⟩
    · exact ⟨i + 1, frame', by simpa using hi, by rwa [Nat.add_right_comm] at hframe⟩

theorem frameHash?_eq (hat : ∀ t ∈ ts, ∃ i, t.At n i) {t : Mined} (h : FrameOf ts missed position frame t) :
    frameHash? frame (ts.map (·.object)) position = .ok (some t.key) := by
  have hnamed : ((frame.member? "txHash").getD .null).orElse ((frame.member? "transactionHash").getD .null) =
      frameName frame := rfl
  rw [frameHash?, hnamed]
  rcases h.named with ⟨hash, hname, hne, hkey⟩ | ⟨hname, hposition⟩
  · simp only [hname, hne, hkey, Bool.false_eq_true, if_false]
    rfl
  · obtain ⟨i, hi⟩ := hat t (List.mem_of_getElem? hposition)
    have hkey : (lower t.hash).isEmpty = false := hi.key_isEmpty
    have hhash : Field.member t.object "hash" = .ok (.str t.hash) := hi.member_hash
    have hat? : (ts.map (·.object))[position]? = some t.object := by simp [hposition]
    cases hframe : frameName frame with
    | str hash =>
      rw [hframe] at hname
      simp only [Json.isGiven, Bool.not_eq_false'] at hname
      simp only [hname, if_true, hat?, hhash, hkey, bind, Except.bind, Bool.false_eq_true, if_false]
      rfl
    | _ =>
      simp only [hat?, hhash, hkey, bind, Except.bind, Bool.false_eq_true, if_false]
      rfl

theorem framed?_eq (hat : ∀ t ∈ ts, ∃ i, t.At n i) {t : Mined} (h : FrameOf ts missed position frame t) :
    framed? (.str address) (ts.map (·.object)) position frame =
      .ok (if !missed t && t.reaches address then some t.key else none) := by
  have htells := h.tells
  cases hmissed : missed t with
  | true =>
    rw [hmissed, if_pos rfl] at htells
    exact framed?_of_silent fun _ => htells
  | false =>
    rw [hmissed, if_neg (by simp)] at htells
    obtain ⟨i, hi⟩ := hat t h.mem
    rw [framed?_of_no_error h.object htells.1, htells.2, hi.reaches_tree, frameHash?_eq hat h]
    cases t.reaches address <;> rfl

/-- A frame that can be read adds its hash, if it has one to add. All else that is done with it is to log. -/
theorem frameHashes_step {block : Json} {P : List Text → Prop} {Q : Fault → Journal → Prop} {hash? : Option Text}
    (h : framed? target transactions position frame = .ok hash?)
    (hrest : Act.Ends o
      (frameHashes target block transactions (position + 1) (hash?.elim hashes (addHash hashes)) frames) P Q) :
    Act.Ends o (frameHashes target block transactions position hashes (frame :: frames)) P Q := by
  cases frame with
  | obj members =>
    unfold frameHashes
    show Act.Ends o (if ((Json.obj members).memberOr "error" .null).isGiven then _ else _) P _
    cases herror : ((Json.obj members).memberOr "error" .null).isGiven with
    | true =>
      rw [framed?_of_silent fun _ => herror] at h
      cases h
      rw [if_pos rfl]
      exact .after_logWritten hrest
    | false =>
      rw [framed?_of_no_error rfl herror] at h
      obtain ⟨reaches, hreaches, h⟩ := bind_eq_ok_iff.mp h
      rw [if_neg (by simp), show CallTree.reaches _ (Json.memberOrNull members "result") = _ from hreaches,
        Act.lift_ok_bind]
      cases reaches with
      | true =>
        rw [if_pos rfl] at h ⊢
        rw [h, Act.lift_ok_bind]
        cases hash? <;> exact hrest
      | false =>
        cases h
        exact hrest
  | _ =>
    cases h
    unfold frameHashes
    exact .after_logWritten hrest

/-- **Frame by frame.** If all frames can be read, what is found is the hashes that they add. -/
theorem frameHashes_finds {block : Json} {Q : Fault → Journal → Prop} (hframes : ∀ i frame, frames[i]? = some frame →
      ∃ hash?, framed? target transactions (position + i) frame = .ok hash?) :
    Act.Ends o (frameHashes target block transactions position hashes frames)
      (fun found => ∀ k, k ∈ found ↔ k ∈ hashes ∨ Framed target transactions position frames k) Q := by
  induction frames generalizing position hashes with
  | nil =>
    unfold frameHashes
    exact .pure (by simp [Framed])
  | cons frame rest ih =>
    obtain ⟨hash?, hhash⟩ := hframes 0 frame rfl
    have hrest : ∀ i frame, rest[i]? = some frame →
        ∃ hash?, framed? target transactions (position + 1 + i) frame = .ok hash? := fun i frame hi => by
      rw [Nat.add_right_comm]
      exact hframes (i + 1) frame (by simpa using hi)
    refine frameHashes_step hhash ((ih hrest).imp fun found hfound k => ?_)
    rw [hfound k, framed_cons_iff, show framed? _ _ position frame = _ from hhash]
    cases hash? with
    | none => simp
    | some hash => simp [mem_addHash, or_assoc, @eq_comm _ k]

/-- The frames of a block add the transactions that reach the target, but for those that are missed. -/
theorem framed_iff_of_frames (hat : ∀ t ∈ ts, ∃ i, t.At n i) (hkey : ∀ t ∈ ts, ∀ u ∈ ts, t.key = u.key → t = u)
    (hframes : Frames ts missed frames) {t : Mined} (ht : t ∈ ts) :
    Framed (.str address) (ts.map (·.object)) 0 frames t.key ↔ missed t = false ∧ t.reaches address = true := by
  constructor
  · intro h
    obtain ⟨i, frame, hi, hk⟩ := h
    obtain ⟨u, hu⟩ := hframes.sound hi
    rw [Nat.zero_add, framed?_eq hat hu] at hk
    split at hk
    · rename_i hinner
      rw [hkey t ht u hu.mem (Option.some.inj (Except.ok.inj hk)).symm]
      simpa using hinner
    · cases hk
  · intro hinner
    obtain ⟨i, frame, hi, hframe⟩ := hframes.complete t ht hinner.1
    refine ⟨i, frame, hi, ?_⟩
    rw [Nat.zero_add, framed?_eq hat hframe, if_pos (by simpa using hinner)]

theorem traceBlock_finds {n : Int} (hat : ∀ t ∈ ts, ∃ i, t.At n i)
    (hkey : ∀ t ∈ ts, ∀ u ∈ ts, t.key = u.key → t = u)
    (htrace : c.Fails o "debug_traceBlockByNumber" (.arr [.str (hexNumeral n), Client.callTracer]) ∧
        (∀ t ∈ ts, missed t = true) ∨
      ∃ frames, c.Gets o "debug_traceBlockByNumber" (.arr [.str (hexNumeral n), Client.callTracer])
        (.arr frames) ∧ Frames ts missed frames) :
    traceBlock.Finds o c address n ts fun t => !missed t && t.reaches address := by
  refine Act.Ends.ensures ?_
  unfold blockHashes traceBlockHashes
  dsimp only
  rw [Client.traceBlock_int]
  rcases htrace with ⟨hfails, hmissed⟩ | ⟨frames, hgets, hframes⟩
  · refine .bind hfails.orElse.attemptOwn_error ?_
    intro _ houtcome
    obtain ⟨e, rfl⟩ := houtcome
    dsimp only
    refine .after_logWritten (.pure fun t ht _ => ?_)
    simp [hmissed t ht]
  · refine .bind hgets.orElse.attemptOwn_ok ?_
    intro _ houtcome
    obtain ⟨_, rfl, rfl⟩ := houtcome
    rw [Json.orElse_arr]
    have hread : ∀ i frame, frames[i]? = some frame →
        ∃ hash?, framed? (.str address) (ts.map (·.object)) (0 + i) frame = .ok hash? := fun i frame hi => by
      obtain ⟨t, ht⟩ := hframes.sound hi
      rw [Nat.zero_add]
      exact ⟨_, framed?_eq hat ht⟩
    refine (frameHashes_finds hread).imp fun found hfound t ht _ => ?_
    rw [hfound t.key, framed_iff_of_frames hat hkey hframes ht]
    simp

/-- The transactions that a strategy for blocks looks for: those whose call tree reaches the target, or
those whose logs the target emitted. -/
def looksFor (address : Text) (t : Mined) : Strategy → Bool
  | .traceBlock | .traceTransaction => t.reaches address
  | .receiptLogs => t.emits address
  | .direct | .traceFilter => false

/-- **What a block's strategy finds:** all it looks for, but what is missed. -/
theorem finds_of_tells {chain : Chain} {a b n : Int} (s : Strategy) (ha : a ≤ n) (hb : n ≤ b)
    (htells : chain.Tells o c missed a b s) :
    s.Finds o c address n (chain.block n) fun t => !missed t && looksFor address t s := by
  have hat : ∀ t ∈ chain.block n, ∃ i, t.At n i := fun t => Chain.at_of_mem
  have hkey : ∀ t ∈ chain.block n, ∀ u ∈ chain.block n, t.key = u.key → t = u :=
    fun t ht u hu hk => (Chain.key_inj ht hu hk).2
  cases s with
  | direct => exact Act.Ends.ensures (.pure fun t _ _ => by simp [looksFor])
  | traceFilter => exact Act.Ends.ensures (.pure fun t _ _ => by simp [looksFor])
  | traceBlock => exact traceBlock_finds hat hkey (htells n ha hb)
  | traceTransaction =>
    refine finds_of_indirect rfl hat fun t ht _ => ?_
    obtain ⟨i, hi⟩ := hat t ht
    exact traceReaches_ensures hi (htells n ha hb t ht)
  | receiptLogs =>
    refine finds_of_indirect rfl hat fun t ht _ => ?_
    obtain ⟨i, hi⟩ := hat t ht
    exact receiptReaches_ensures hi (htells n ha hb t ht)

/-! ## Trace by trace -/

theorem traceHash?_eq {n : Int} {i : Nat} {t : Mined} {trace recipient : Json} (hat : t.At n i)
    (hr : Address.Textual recipient) (h : TraceOf trace t recipient) :
    traceHash? (.str address) trace =
      .ok (if Address.names address recipient then some t.key else none) := by
  obtain ⟨hash, hmember, hkey⟩ := h.hash
  have hne : hash.isEmpty = false := by rw [← lower_isEmpty, hkey, hat.key_isEmpty]
  cases trace with
  | obj members =>
    have hhash : Json.memberOrNull members "transactionHash" = .str hash := by
      rw [Json.memberOrNull, show members.lookup (ofString "transactionHash") = _ from hmember]
      rfl
    have hto : Field.member (Json.memberOrNull members "action") "to" = .ok recipient := h.action
    have hsame : Address.same recipient (.str address) = _ := Address.same_of_textual hr
    by_cases hgiven : (Json.memberOrNull members "action").isGiven = true
    · simp only [traceHash?, hhash, hne, hgiven, Bool.false_eq_true, if_false, if_true, hto, bind, Except.bind,
        hsame, hkey]
      cases Address.names address recipient <;> rfl
    · -- An action that is not given is an object without members, so its recipient is null.
      have hnull : recipient = .null := by
        cases haction : Json.memberOrNull members "action" with
        | obj parts =>
          rw [haction] at hto hgiven
          cases parts with
          | nil => exact (Except.ok.inj hto).symm
          | cons => simp [Json.isGiven] at hgiven
        | _ =>
          rw [haction] at hto
          cases hto
      simp only [traceHash?, hhash, hne, hgiven, Bool.false_eq_true, if_false, bind, Except.bind, hkey, hnull]
      rfl
  | _ => cases hmember

theorem traceHashes_eq {target : Json} {traces : List Json}
    (h : ∀ trace ∈ traces, ∃ hash?, traceHash? target trace = .ok hash?) (hashes : List Text) :
    ∃ found, traceHashes target hashes traces = .ok found ∧
      ∀ k, k ∈ found ↔ k ∈ hashes ∨ ∃ trace ∈ traces, traceHash? target trace = .ok (some k) := by
  induction traces generalizing hashes with
  | nil => exact ⟨hashes, rfl, by simp⟩
  | cons trace rest ih =>
    obtain ⟨hash?, hhash⟩ := h trace (by simp)
    have ih := ih fun trace ht => h trace (by simp [ht])
    rw [traceHashes, hhash]
    cases hash? with
    | none =>
      obtain ⟨found, hfound, hmem⟩ := ih hashes
      refine ⟨found, hfound, fun k => ?_⟩
      simp [hmem k, hhash]
    | some hash =>
      obtain ⟨found, hfound, hmem⟩ := ih (addHash hashes hash)
      refine ⟨found, hfound, fun k => ?_⟩
      rw [hmem k, mem_addHash, or_assoc, @eq_comm _ k]
      simp [hhash]

theorem traceHashes_of_traces {chain : Chain} {a b : Int} {traces : List Json}
    (htraces : Traces chain address a b traces) :
    ∃ found, traceHashes (.str address) [] traces = .ok found ∧ ∀ k, k ∈ found ↔
      ∃ n t, a ≤ n ∧ n ≤ b ∧ t ∈ chain.block n ∧ t.reaches address = true ∧ t.key = k := by
  have heach : ∀ {trace n t recipient}, t ∈ chain.block n → recipient ∈ CallTree.recipients t.tree →
      TraceOf trace t recipient → traceHash? (.str address) trace =
        .ok (if Address.names address recipient then some t.key else none) := by
    intro trace n t recipient ht hr htrace
    obtain ⟨i, hi⟩ := Chain.at_of_mem ht
    exact traceHash?_eq hi (CallTree.textual_of_mem hi.tree hr) htrace
  have hok : ∀ trace ∈ traces, ∃ hash?, traceHash? (.str address) trace = .ok hash? := by
    intro trace hmem
    obtain ⟨n, t, recipient, -, -, ht, hr, htrace⟩ := htraces.sound trace hmem
    exact ⟨_, heach ht hr htrace⟩
  obtain ⟨found, hfound, hmem⟩ := traceHashes_eq hok []
  refine ⟨found, hfound, fun k => ?_⟩
  rw [hmem k]
  constructor
  · intro h
    rcases h with hk | ⟨trace, htr, hhash⟩
    · cases hk
    · obtain ⟨n, t, recipient, hn, hn', ht, hr, htrace⟩ := htraces.sound trace htr
      rw [heach ht hr htrace] at hhash
      split at hhash
      · rename_i hnames
        exact ⟨n, t, hn, hn', ht, List.any_eq_true.mpr ⟨recipient, hr, hnames⟩,
          Option.some.inj (Except.ok.inj hhash)⟩
      · cases hhash
  · intro h
    obtain ⟨n, t, hn, hn', ht, hreaches, rfl⟩ := h
    obtain ⟨recipient, hr, hnames⟩ := List.any_eq_true.mp hreaches
    obtain ⟨trace, htr, htrace⟩ := htraces.complete hn hn' ht hr hnames
    refine .inr ⟨trace, htr, ?_⟩
    rw [heach ht hr htrace, if_pos hnames]

/-- **The traces of a range.** The hashes are those of the transactions of the range that reach the
target. -/
theorem batchHashes_ends {chain : Chain} {a b : Int} {traces : List Json}
    (hgets : c.Gets o "trace_filter" (filterParams address a b) (.arr traces))
    (htraces : Traces chain address a b traces) :
    Act.Ends o (traceFilter.batchHashes c (.str address) (.int a) (.int b)) (fun hashes =>
      ∀ k, k ∈ hashes ↔
        ∃ n t, a ≤ n ∧ n ≤ b ∧ t ∈ chain.block n ∧ t.reaches address = true ∧ t.key = k) Q := by
  obtain ⟨found, hfound, hmem⟩ := traceHashes_of_traces htraces
  unfold batchHashes
  dsimp only
  rw [Client.traceFilter_int]
  refine .bind hgets.orElse.attemptOwn_ok ?_
  intro _ houtcome
  obtain ⟨_, rfl, rfl⟩ := houtcome
  rw [Json.orElse_arr]
  dsimp only
  rw [hfound]
  exact .pure hmem

end Strategy
end AssertionReplay
