/-
Frames that name no transaction.

Such a frame counts for the transaction at its position. But frames are
counted as the trace lists them, and transactions as what is left of the block
without the entries that are no objects. So a transaction goes by the frame
whose position is the number of objects before it (`place`), whatever else is
listed there (`fetchBlock_by_position`): by the frame at its own position if
there are only objects before it, and else by one that is meant for another
entry (`frame_of_another_entry`).
-/
import AssertionReplay.Proofs.DirectCalls
import AssertionReplay.Proofs.Isolation
import AssertionReplay.Proofs.Placement
import AssertionReplay.Proofs.Search

namespace AssertionReplay

open Text

namespace Fetcher

open Act

/-! ## Transactions and frames -/

/-- The hash of a transaction in lower case, empty if it has none. -/
def keyOf (transaction : Json) : Text :=
  match transaction.member? "hash" with
  | some (.str hash) => lower hash
  | _ => ""

/-- The object can be read as a transaction of the block, and its hash is not empty. -/
structure Complete (block : Int) (transaction : Json) : Prop where
  record : ∃ r, Record.ofTransaction transaction (some (.int block)) = .ok r
  key : (keyOf transaction).isEmpty = false

/-- The frame names no transaction, and its call tree is well typed. -/
structure Anonymous (frame : Json) : Prop where
  unnamed : (frameName frame).isGiven = false
  typed : CallTree.WellTyped (frame.memberOr "result" .null)

/-- The frame is an object without an error, and a node of its call tree names the address. -/
structure Reports (address : Text) (frame : Json) : Prop where
  object : isObject frame = true
  error : (frame.memberOr "error" .null).isGiven = false
  reaches : ∃ node, CallTree.Within (frame.memberOr "result" .null) node ∧ CallTree.Names address node

/-- A frame reports a call, and the transaction at its position has the hash; positions start from the one given. -/
def Marks (address : Text) (transactions : List Json) (position : Nat) (frames : List Json) (key : Text) : Prop :=
  ∃ i frame t, frames[i]? = some frame ∧ Reports address frame ∧ transactions[position + i]? = some t ∧ keyOf t = key

/-- The number of objects before a position. -/
def place (items : List Json) (position : Nat) : Nat := (items.take position).countP isObject

variable {o : Outside} {f : Fetcher} {n m : Int} {j j' j₁ j₂ : Journal} {Q : Fault → Journal → Prop}
variable {address key : Text} {target : String} {v t frame : Json} {items transactions frames : List Json}
variable {position : Nat} {hashes : List Text}

theorem Complete.hash (h : Complete n t) : ∃ members hash, t = .obj members ∧
    (Json.obj members).member? "hash" = some (.str hash) ∧ keyOf t = lower hash := by
  obtain ⟨r, hr⟩ := h.record
  obtain ⟨members, rfl⟩ := Record.ofTransaction_obj hr
  obtain ⟨hash, hhash, -⟩ := (Record.ofTransaction_eq_ok_iff.mp hr).hash
  exact ⟨members, hash, rfl, hhash, by rw [keyOf, hhash]⟩

theorem Complete.member_hash (h : Complete n t) : ∃ hash, Field.member t "hash" = .ok (.str hash) ∧
    keyOf t = lower hash := by
  obtain ⟨members, hash, rfl, hhash, hkey⟩ := h.hash
  refine ⟨hash, ?_, hkey⟩
  show Except.ok (((Json.obj members).member? "hash").getD .null) = _
  rw [hhash]
  rfl

theorem Complete.isNamed_iff (h : Complete n t) : isNamed key t = true ↔ keyOf t = key := by
  obtain ⟨members, hash, rfl, hhash, hkey⟩ := h.hash
  rw [hkey, isNamed, hhash]
  exact beq_iff_eq

theorem Complete.same (h : Complete n t) (target : String) : ∃ recipient, Field.member t "to" = .ok recipient ∧
    (Address.same recipient (.str target) = .ok true ↔ Direct target t) ∧
    (Address.same recipient (.str target) = .ok false ↔ ¬Direct target t) := by
  obtain ⟨r, hr⟩ := h.record
  obtain ⟨members, rfl⟩ := Record.ofTransaction_obj hr
  obtain ⟨_, hto, -⟩ := (Record.ofTransaction_eq_ok_iff.mp hr).recipient
  refine ⟨_, rfl, ?_⟩
  rw [Address.same_of_textual (Address.textual_of_parse hto), Except.ok.injEq, Except.ok.injEq, Direct,
    Bool.not_eq_true]
  exact ⟨Iff.rfl, Iff.rfl⟩

/-! ## What the frames mark -/

/-- A frame that names no transaction belongs to the one at its position, if there is one. -/
theorem frameHash?_of_unnamed (hframe : (frameName frame).isGiven = false)
    (hall : ∀ t ∈ transactions, Complete n t) :
    Strategy.frameHash? frame transactions position = .ok (transactions[position]?.map keyOf) := by
  have hnamed : ((frame.member? "txHash").getD .null).orElse ((frame.member? "transactionHash").getD .null) =
      frameName frame := rfl
  rw [Strategy.frameHash?, hnamed]
  -- A name that is not given can still be the empty text.
  have hempty : ∀ hash, frameName frame = .str hash → hash.isEmpty = true := fun hash hname => by
    rw [hname] at hframe
    simpa [Json.isGiven] using hframe
  cases hat : transactions[position]? with
  | none =>
    cases hname : frameName frame with
    | str hash => simp [hempty hash hname, Pure.pure, Except.pure]
    | _ => rfl
  | some t =>
    have ht := hall t (List.mem_of_getElem? hat)
    obtain ⟨hash, hmember, hkey⟩ := ht.member_hash
    have hgiven : (lower hash).isEmpty = false := hkey ▸ ht.key
    cases hname : frameName frame with
    | str other => simp [hempty other hname, hmember, hgiven, hkey, Bind.bind, Except.bind, Pure.pure, Except.pure]
    | _ => simp [hmember, hgiven, hkey, Bind.bind, Except.bind, Pure.pure, Except.pure]

/-- It adds the hash of that transaction, if it reports a call. -/
theorem framed?_of_anonymous (haddress : address.isEmpty = false) (hall : ∀ t ∈ transactions, Complete n t)
    (hframe : Anonymous frame) : ∃ hash?, Strategy.framed? (.str address) transactions position frame = .ok hash? ∧
      ∀ key, hash? = some key ↔ Reports address frame ∧ ∃ t, transactions[position]? = some t ∧ keyOf t = key := by
  by_cases htells : isObject frame = true ∧ (frame.memberOr "error" .null).isGiven = false
  · obtain ⟨reaches, hreaches, hiff⟩ := CallTree.reaches_tells haddress hframe.typed
    rw [Strategy.framed?_of_no_error htells.1 htells.2, hreaches]
    cases reaches with
    | true =>
      refine ⟨_, frameHash?_of_unnamed hframe.unnamed hall, fun key => ?_⟩
      rw [and_iff_right ⟨htells.1, htells.2, hiff.mp rfl⟩, Option.map_eq_some_iff]
    | false =>
      refine ⟨none, rfl, fun key => iff_of_false (by simp) fun hreports => ?_⟩
      cases hiff.mpr hreports.1.reaches
  · refine ⟨none, Strategy.framed?_of_silent fun hobj => ?_, fun key => iff_of_false (by simp) fun hreports => ?_⟩
    · simpa [hobj] using htells
    · exact htells ⟨hreports.1.object, hreports.1.error⟩

/-- **Going through the frames** finds the hashes that they mark. -/
theorem frameHashes_marks (haddress : address.isEmpty = false) (hall : ∀ t ∈ transactions, Complete n t)
    (hframes : ∀ frame ∈ frames, Anonymous frame) :
    Ends o (Strategy.frameHashes (.str address) (.int n) transactions position hashes frames)
      (fun found => ∀ key, key ∈ found ↔ key ∈ hashes ∨ Marks address transactions position frames key) Q := by
  have hframed : ∀ i frame, frames[i]? = some frame → ∃ hash?,
      Strategy.framed? (.str address) transactions (position + i) frame = .ok hash? ∧
        ∀ key, hash? = some key ↔
          Reports address frame ∧ ∃ t, transactions[position + i]? = some t ∧ keyOf t = key := fun i frame hi =>
    framed?_of_anonymous haddress hall (hframes frame (List.mem_of_getElem? hi))
  refine (Strategy.frameHashes_finds fun i frame hi => (hframed i frame hi).imp fun _ h => h.1).imp
    fun found hfound key => ?_
  rw [hfound key]
  refine or_congr_right (exists_congr fun i => exists_congr fun frame => ?_)
  simp only [exists_and_left]
  refine and_congr_right fun hi => ?_
  obtain ⟨hash?, hhash, hiff⟩ := hframed i frame hi
  rw [hhash, Except.ok.injEq, hiff]

/-! ## What is matched -/

/-- **The direct calls** of a block can be told, and they are found under their hashes. -/
theorem directCalls_contains (target : String) (hall : ∀ t ∈ transactions, Complete n t) (found : OrderedMap Record) :
    ∃ direct, directCalls target n found transactions = .ok direct ∧ ∀ key, direct.contains key = true ↔
      found.contains key = true ∨ ∃ t ∈ transactions, Direct target t ∧ keyOf t = key := by
  induction transactions generalizing found with
  | nil => exact ⟨found, rfl, by simp⟩
  | cons t rest ih =>
    rw [List.forall_mem_cons] at hall
    obtain ⟨recipient, hto, hdirect, hindirect⟩ := hall.1.same target
    by_cases hcalls : Direct target t
    · obtain ⟨r, hr⟩ := hall.1.record
      obtain ⟨members, hash, rfl, hhash, hkey⟩ := hall.1.hash
      obtain ⟨direct, hrun, hiff⟩ := ih hall.2 (found.insert r.hash r)
      refine ⟨direct, ?_, fun key => ?_⟩
      · exact bind_eq_ok_iff.mpr ⟨_, hto, bind_eq_ok_iff.mpr ⟨true, hdirect.mpr hcalls,
          bind_eq_ok_iff.mpr ⟨r, hr, hrun⟩⟩⟩
      · rw [hiff, OrderedMap.contains_insert, Record.hash_of_ofTransaction hr hhash, ← hkey, or_assoc,
          List.exists_mem_cons_iff, @eq_comm _ key]
        simp [hcalls]
    · obtain ⟨direct, hrun, hiff⟩ := ih hall.2 found
      refine ⟨direct, ?_, fun key => ?_⟩
      · exact bind_eq_ok_iff.mpr ⟨_, hto, bind_eq_ok_iff.mpr ⟨false, hindirect.mpr hcalls, hrun⟩⟩
      · rw [hiff, List.exists_mem_cons_iff]
        simp [hcalls]

theorem contains_withHashIn (hall : ∀ t ∈ transactions, Complete n t) :
    (withHashIn hashes transactions).contains key = true ↔ key ∈ hashes ∧ ∃ t ∈ transactions, keyOf t = key := by
  have hnamed : (∃ t ∈ transactions, isNamed key t = true) ↔ ∃ t ∈ transactions, keyOf t = key :=
    exists_congr fun t => and_congr_right fun ht => (hall t ht).isNamed_iff
  show ((withHashIn hashes transactions).get? key).isSome = true ↔ _
  rw [get?_withHashIn, ← hnamed]
  split
  · rename_i hin
    simp [hin]
  · rename_i hnot
    simp [hnot]

/-- Of transactions that can all be read, none is skipped. -/
theorem addInner_contains {inner : List (Text × Json)} (hall : ∀ p ∈ inner, Complete n p.2)
    (found : OrderedMap Record) : Ends o (addInner n found inner)
      (fun matched => ∀ key, matched.contains key = true ↔ found.contains key = true ∨ key ∈ inner.map (·.1)) Q := by
  induction inner generalizing found with
  | nil => exact .pure (by simp)
  | cons p rest ih =>
    rw [List.forall_mem_cons] at hall
    obtain ⟨hash, transaction⟩ := p
    obtain ⟨r, hr⟩ := hall.1.record
    unfold addInner
    rw [List.map_cons]
    split
    · rename_i hthere
      refine (ih hall.2 found).imp fun matched h key => ?_
      rw [h key, List.mem_cons]
      refine ⟨.imp_right .inr, ?_⟩
      rintro (hfound | rfl | hrest)
      · exact .inl hfound
      · exact .inl hthere
      · exact .inr hrest
    · rw [hr]
      refine (ih hall.2 (found.insert hash r)).imp fun matched h key => ?_
      rw [h key, OrderedMap.contains_insert, List.mem_cons, or_assoc]

/-- A trace of the block that names no transactions leads to those that its frames mark. -/
theorem innerCalls_marks (haddress : (Text.ofString f.target).isEmpty = false)
    (hall : ∀ t ∈ transactions, Complete n t) (hframes : ∀ frame ∈ frames, Anonymous frame)
    (htrace : f.client.call "debug_traceBlockByNumber" (.arr [.str (hexNumeral n), Client.callTracer]) o j =
      (.ok (.arr frames), j')) :
    EndsFrom o j (f.innerCalls .traceBlock n transactions)
      (fun inner => (∀ p ∈ inner, p.2 ∈ transactions) ∧
        ∀ key, inner.contains key = true ↔ Marks f.target transactions 0 frames key) Q := by
  have htraced : (f.client.traceBlock (.int n)).attemptOwn o j = (.ok (.ok (.arr frames)), j') := by
    have hanswer : f.client.traceBlock (.int n) o j = (.ok (.arr frames), j') := by
      rw [Client.traceBlock_int]
      refine (bind_apply_of_ok htrace).trans ?_
      rw [Json.orElse_arr]
      rfl
    exact attemptOwn_of_ok hanswer
  unfold innerCalls
  refine .bind (.attempt (R := fun r => ∃ found, r = .ok found ∧
    ∀ key, key ∈ found ↔ Marks f.target transactions 0 frames key) ?_) ?_
  · refine .of_ok htraced (Ends.from ?_ j')
    refine (frameHashes_marks (Q := fun _ _ => False) haddress hall hframes).mono (fun found h => ?_)
      fun _ _ h => h.elim
    exact ⟨found, rfl, fun key => by simp [h key]⟩
  · rintro _ ⟨found, rfl, hfound⟩
    refine .pure ⟨fun p hp => (withHashIn_picks found transactions p hp).2.2, fun key => ?_⟩
    rw [contains_withHashIn hall, hfound key]
    refine ⟨And.left, fun hmarks => ⟨hmarks, ?_⟩⟩
    obtain ⟨_, _, t, _, _, ht, hkey⟩ := hmarks
    exact ⟨t, List.mem_of_getElem? ht, hkey⟩

/-! ## Positions in the block -/

/-- What is left of the entries has each object where the objects before it are counted. -/
theorem getElem?_place {p : Nat} (h : items[p]? = some t) (hobj : isObject t = true) :
    (items.filter isObject)[place items p]? = some t := by
  induction items generalizing p with
  | nil => cases h
  | cons item rest ih =>
    cases p with
    | zero =>
      cases h
      rw [List.filter_cons_of_pos hobj]
      rfl
    | succ p =>
      have hrest := ih (p := p) (by simpa using h)
      cases hitem : isObject item <;> simpa [place, hitem] using hrest

theorem place_of_objects {p : Nat} (h : items[p]? = some t) (hobjects : ∀ item ∈ items.take p, isObject item = true) :
    place items p = p := by
  have hp : p < items.length := (List.getElem?_eq_some_iff.mp h).1
  rw [place, List.countP_eq_length.mpr hobjects, List.length_take, Nat.min_eq_left hp.le]

/-- Where no two transactions have the same hash, the frame that marks one is the one at its position. -/
theorem marks_keyOf_iff {p : Nat} (hdistinct : (transactions.map keyOf).Nodup) (ht : transactions[p]? = some t) :
    Marks address transactions 0 frames (keyOf t) ↔ ∃ frame, frames[p]? = some frame ∧ Reports address frame := by
  constructor
  · rintro ⟨i, frame, u, hi, hreports, hu, hkey⟩
    rw [Nat.zero_add] at hu
    have hsame : (transactions.map keyOf)[i]? = (transactions.map keyOf)[p]? := by
      rw [List.getElem?_map, List.getElem?_map, hu, ht, Option.map_some, Option.map_some, hkey]
    have hi' : i < (transactions.map keyOf).length := by
      rw [List.length_map]
      exact (List.getElem?_eq_some_iff.mp hu).1
    exact ⟨frame, (List.getElem?_inj hi' hdistinct).mp hsame ▸ hi, hreports⟩
  · rintro ⟨frame, hframe, hreports⟩
    exact ⟨p, frame, t, hframe, hreports, by rwa [Nat.zero_add], rfl⟩

/-! ## Blocks -/

theorem readBlock_of_claimed {asked : Int} {direct : OrderedMap Record} (hnumber : claimedNumber asked v = .ok n)
    (hitems : Field.member v "transactions" = .ok (.arr items))
    (hdirect : directCalls target n [] (items.filter isObject) = .ok direct) :
    readBlock target asked v = .ok ⟨n, items.filter isObject, direct⟩ := by
  obtain ⟨number, hmember, hblock⟩ := bind_eq_ok_iff.mp hnumber
  refine bind_eq_ok_iff.mpr ⟨number, hmember, ?_⟩
  dsimp only at hblock ⊢
  have htransactions : transactionsOf (.arr items) = .ok (items.filter isObject) := rfl
  split at hblock <;> rename_i hgiven
  · rw [if_pos hgiven]
    simp only [hblock, hitems, htransactions, hdirect, Bind.bind, Except.bind, Pure.pure, Except.pure]
  · cases hblock
    rw [if_neg hgiven]
    simp only [hitems, htransactions, hdirect, Bind.bind, Except.bind, Pure.pure, Except.pure]

theorem isGiven_of_member {name : Text} {w : Json} (h : Field.member v name = .ok w) (hw : w ≠ .null) :
    v.isGiven = true := by
  cases v with
  | obj members =>
    cases members with
    | nil =>
      cases h
      exact absurd rfl hw
    | cons => rfl
  | _ => cases h

/-- A block is matched with its direct calls, and with what the frames mark. -/
theorem fetchBlock_marks (haddress : (Text.ofString f.target).isEmpty = false)
    (hread : f.client.blockByNumber (.int n) (.bool true) o j = (.ok v, j₁)) (hnumber : claimedNumber n v = .ok m)
    (hitems : Field.member v "transactions" = .ok (.arr items))
    (hall : ∀ t ∈ items.filter isObject, Complete m t)
    (htrace : f.client.call "debug_traceBlockByNumber" (.arr [.str (hexNumeral m), Client.callTracer]) o j₁ =
      (.ok (.arr frames), j₂)) (hframes : ∀ frame ∈ frames, Anonymous frame) :
    EndsFrom o j (f.fetchBlock .traceBlock n) (fun r => r.ok = true ∧ ∀ key, r.matched.contains key = true ↔
        (∃ t ∈ items.filter isObject, Direct f.target t ∧ keyOf t = key) ∨
          Marks f.target (items.filter isObject) 0 frames key) Q := by
  obtain ⟨direct, hdirect, hcalls⟩ := directCalls_contains f.target hall []
  have hcontent : f.contentOf n o j = (.ok (some ⟨m, items.filter isObject, direct⟩), j₁) := by
    rw [contentOf, bind_apply_of_ok hread, isGiven_of_member hitems (by simp),
      readBlock_of_claimed hnumber hitems hdirect]
    rfl
  rw [EndsFrom, fetchBlock_of_content .traceBlock hcontent]
  show EndsFrom o j₁ (f.matchContent .traceBlock n ⟨m, items.filter isObject, direct⟩) _ _
  unfold matchContent
  refine .bind (innerCalls_marks haddress hall hframes htrace) fun inner hinner => ?_
  refine .bind (addInner_contains (fun p hp => hall _ (hinner.1 p hp)) direct) fun matched hmatched => ?_
  have hmarked : ∀ key, matched.contains key = true ↔
      (∃ t ∈ items.filter isObject, Direct f.target t ∧ keyOf t = key) ∨
        Marks f.target (items.filter isObject) 0 frames key := fun key => by
    rw [hmatched key, ← OrderedMap.contains_iff, hinner.2 key, hcalls key]
    simp [OrderedMap.contains]
  split
  · exact .after_logWritten (.pure ⟨rfl, hmarked⟩)
  · exact .pure ⟨rfl, hmarked⟩

/-- **Frames that name no transaction**, for a block whose objects are transactions that can all be read, no two of
the same hash, and a trace that lists such frames. A transaction that is no direct call is matched exactly if a frame
that reports a call of the target stands at its place, which is the number of objects before it in the block. So
where only objects stand before it, that is the frame at its own position. -/
theorem fetchBlock_by_position {client : Client} {target size conc : Json} {detect fallback bar : Bool}
    {capability? : Option Capability} (hf : create client target size conc detect fallback capability? bar = .ok f)
    (hread : f.client.blockByNumber (.int n) (.bool true) o j = (.ok v, j₁)) (hnumber : claimedNumber n v = .ok m)
    (hitems : Field.member v "transactions" = .ok (.arr items))
    (hall : ∀ t ∈ items, isObject t = true → Complete m t) (hdistinct : ((items.filter isObject).map keyOf).Nodup)
    (htrace : f.client.call "debug_traceBlockByNumber" (.arr [.str (hexNumeral m), Client.callTracer]) o j₁ =
      (.ok (.arr frames), j₂)) (hframes : ∀ frame ∈ frames, Anonymous frame) :
    ∃ r j', f.fetchBlock (.of .traceBlock fallback) n o j = (.ok r, j') ∧ r.ok = true ∧
      ∀ p t, items[p]? = some t → isObject t = true → ¬Direct f.target t →
        (r.matched.contains (keyOf t) = true ↔
          ∃ frame, frames[place items p]? = some frame ∧ Reports f.target frame) ∧
        ((∀ item ∈ items.take p, isObject item = true) → (r.matched.contains (keyOf t) = true ↔
          ∃ frame, frames[p]? = some frame ∧ Reports f.target frame)) := by
  obtain ⟨_, _, -, -, -, -, hparse, -⟩ := create_eq_ok_iff_exists.mp hf
  have hall : ∀ t ∈ items.filter isObject, Complete m t := by
    simpa only [List.mem_filter, and_imp] using hall
  have hends := fetchBlock_marks (Q := fun _ _ => False) (Address.isEmpty_of_parse hparse) hread hnumber hitems hall
    htrace hframes
  obtain ⟨r, j', hrun, hok, hmatched⟩ | ⟨_, _, -, hfalse⟩ := hends.cases
  swap
  · exact hfalse.elim
  refine ⟨r, j', hrun, hok, fun p t ht hobj hindirect => ?_⟩
  have hat := getElem?_place ht hobj
  have hplace : r.matched.contains (keyOf t) = true ↔
      ∃ frame, frames[place items p]? = some frame ∧ Reports f.target frame := by
    rw [hmatched, or_iff_right, marks_keyOf_iff hdistinct hat]
    rintro ⟨u, hu, hdirect, hkey⟩
    obtain rfl : u = t := List.inj_on_of_nodup_map hdistinct hu (List.mem_of_getElem? hat) hkey
    exact hindirect hdirect
  refine ⟨hplace, fun hobjects => ?_⟩
  rwa [place_of_objects ht hobjects] at hplace

/-- A block that lists the hash of a transaction, and then one as an object. -/
def mixedBlock : Json :=
  .obj [("number", .str (hexNumeral 1)), ("transactions", .arr [.str "0x0f", unaddressed "0x0a"])]

/-- A frame of a call of the address. -/
def callingFrame : Json := .obj [("result", .obj [("to", .str Sample.address)])]

/-- A frame of a creation without inner calls. -/
def idleFrame : Json := .obj [("result", .obj [])]

/-- Every block is answered with this one, and every trace with the frames. -/
def mixedEndpoint (frames : List Json) : Outside := Client.answering fun request =>
  if request.method == "eth_getBlockByNumber" then some mixedBlock else some (.arr frames)

theorem complete_unaddressed : Complete 1 (unaddressed "0x0a") := ⟨⟨_, rfl⟩, rfl⟩

theorem not_direct_unaddressed : ¬Direct Sample.address (unaddressed "0x0a") := Bool.false_ne_true

theorem anonymous_callingFrame : Anonymous callingFrame :=
  ⟨rfl, CallTree.wellTyped_leaf (.inr ⟨_, rfl⟩) rfl⟩

theorem anonymous_idleFrame : Anonymous idleFrame := ⟨rfl, CallTree.wellTyped_leaf (.inl rfl) rfl⟩

theorem reports_callingFrame : Reports Sample.address callingFrame :=
  ⟨rfl, rfl, _, .root, _, _, rfl, rfl, rfl⟩

/-- The object is matched by the only frame, though it stands at the position of the entry before it. -/
theorem fetchBlock_by_position_mixed :
    (create Sample.client (.str Sample.address) (.int 1) (.int 2) true false (some .traceBlock) false =
        .ok (sampleFetcher .traceBlock) ∧
      claimedNumber 1 mixedBlock = .ok 1 ∧
      Field.member mixedBlock "transactions" = .ok (.arr [.str "0x0f", unaddressed "0x0a"]) ∧
      Complete 1 (unaddressed "0x0a") ∧ Anonymous callingFrame) ∧
    ∃ r j, (sampleFetcher .traceBlock).fetchBlock (.of .traceBlock false) 1 (mixedEndpoint [callingFrame]) [] =
      (.ok r, j) ∧ r.matched.contains "0x0a" = true := by
  have hmixed : claimedNumber 1 mixedBlock = .ok 1 := rfl
  have hitems : Field.member mixedBlock "transactions" = .ok (.arr [.str "0x0f", unaddressed "0x0a"]) := rfl
  refine ⟨⟨sampleFetcher_created _, hmixed, hitems, complete_unaddressed, anonymous_callingFrame⟩, ?_⟩
  have hblock : Sample.client.Gets (mixedEndpoint [callingFrame]) "eth_getBlockByNumber" (blockParams 1) mixedBlock :=
    Client.gets_answering (k := 4) rfl rfl
  have htrace : Sample.client.Gets (mixedEndpoint [callingFrame]) "debug_traceBlockByNumber"
      (.arr [.str (hexNumeral 1), Client.callTracer]) (.arr [callingFrame]) :=
    Client.gets_answering (k := 4) rfl rfl
  obtain ⟨_, hread, rfl⟩ := hblock []
  obtain ⟨_, htraced, rfl⟩ := htrace _
  obtain ⟨r, j, hrun, -, hmatched⟩ := fetchBlock_by_position (f := sampleFetcher .traceBlock) (n := 1) (sampleFetcher_created _)
    (Prod.ext hread rfl) hmixed hitems (by simpa [isObject] using fun _ => complete_unaddressed)
    (List.nodup_singleton _) (Prod.ext htraced rfl) (List.forall_mem_singleton.mpr anonymous_callingFrame)
  obtain ⟨hplace, -⟩ := hmatched 1 (unaddressed "0x0a") rfl rfl not_direct_unaddressed
  exact ⟨r, j, hrun, hplace.mpr ⟨callingFrame, rfl, reports_callingFrame⟩⟩

/-- The names under which a fetch of block one matches, block by block, where its trace lists the frames. -/
def matchedBy (frames : List Json) : Option (List (List Text)) :=
  ((sampleFetcher .traceBlock).fetch (.int 1) (.int 1) (mixedEndpoint frames) []).1.toOption.map fun r =>
    r.blocks.map (·.matched.names)

/-- **A frame can count for another entry.** The object stands at position one of the block. With a frame there that
reports a call of the target, nothing is matched; with that frame at position zero, the object is. -/
theorem frame_of_another_entry :
    create Sample.client (.str Sample.address) (.int 1) (.int 2) true false (some .traceBlock) false =
      .ok (sampleFetcher .traceBlock) ∧
    Field.member mixedBlock "transactions" = .ok (.arr [.str "0x0f", unaddressed "0x0a"]) ∧
    Complete 1 (unaddressed "0x0a") ∧ ¬Direct Sample.address (unaddressed "0x0a") ∧
    Anonymous idleFrame ∧ Anonymous callingFrame ∧
    ¬Reports Sample.address idleFrame ∧ Reports Sample.address callingFrame ∧
    matchedBy [idleFrame, callingFrame] = some [[]] ∧
    matchedBy [callingFrame, idleFrame] = some [[.ofString "0x0a"]] := by
  have hidle : ¬Reports Sample.address idleFrame := by
    rintro ⟨-, -, node, hwithin, members, t, rfl, hto, -⟩
    rcases CallTree.within_iff.mp hwithin with hroot | ⟨child, hchild, -⟩
    · cases hroot
      cases hto
    · cases hchild
  exact ⟨sampleFetcher_created _, rfl, complete_unaddressed, not_direct_unaddressed, anonymous_idleFrame,
    anonymous_callingFrame, hidle, reports_callingFrame, by decide +kernel, by decide +kernel⟩

end Fetcher
end AssertionReplay
