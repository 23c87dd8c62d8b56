/-
The search for a transaction to probe with.

Blocks are looked up from a given one downwards, until one of them has a
transaction or there are no more to look at. Each lookup starts from the
journal that the one before it left (`LooksUp`), so what the endpoint answers
may depend on all that was asked before. The search ends with the hash of the
first transaction of the highest block that has one, right after its lookup,
or with null once every block was looked up (`sampleTransaction_scans`); the
calls that it makes are those of its lookups (`LooksUp.calls`).
-/
import AssertionReplay.Proofs.FetchCalls
import AssertionReplay.Proofs.Probing

namespace AssertionReplay.Probe

open Text

/-! ## Blocks -/

/-- The transaction is given as its hash, or as an object that has one. -/
def HasHash (transaction : Json) : Prop :=
  (∃ t, transaction = .str t) ∨ ∃ fields hash, transaction = .obj fields ∧ (Json.obj fields).member? "hash" = some hash

/-- A block is not given, or it is an object whose transactions are not given or are a list. -/
inductive Readable : Json → Prop
  | missing : Readable .null
  | without {members : List (Text × Json)} (h : Json.memberOrNull members "transactions" = .null) :
      Readable (.obj members)
  | listed {members : List (Text × Json)} {transactions : List Json}
      (h : Json.memberOrNull members "transactions" = .arr transactions)
      (hhash : ∀ transaction ∈ transactions, HasHash transaction) : Readable (.obj members)

/-- The hash of the first transaction of a block, if it has one. -/
def firstHash? : Json → Option Json
  | .obj members =>
    match Json.memberOrNull members "transactions" with
    | .arr (.obj fields :: _) => (Json.obj fields).member? "hash"
    | .arr (hash :: _) => some hash
    | _ => none
  | _ => none

/-- What a lookup is good for: the hash of the first transaction, if it succeeded and there is one. -/
def hit? : Except Fault Json → Option Json
  | .ok block => firstHash? block
  | .error _ => none

theorem Readable.sampleIn_eq {v : Json} (h : Readable v) : sampleIn v = .ok (firstHash? v) := by
  cases h with
  | missing => rfl
  | @without members h =>
    have hlisted : listedIn (.obj members) = .ok .null := by
      rw [← h]
      cases members <;> rfl
    simp [sampleIn, hlisted, sampleOf, Json.isGiven, firstHash?, h, bind, Except.bind]
  | @listed members transactions h hhash =>
    have hlisted : listedIn (.obj members) = .ok (.arr transactions) := by
      rw [← h]
      cases members with
      | nil => cases h
      | cons => rfl
    rw [sampleIn, hlisted, firstHash?, h]
    cases transactions with
    | nil => rfl
    | cons first rest =>
      rcases hhash first List.mem_cons_self with ⟨t, rfl⟩ | ⟨fields, hash, rfl, hfirst⟩
      · rfl
      · have hof : hashOf (.obj fields) = .ok hash := by simp only [hashOf, hfirst]
        simp [sampleOf, Json.isGiven, hof, hfirst, bind, Except.bind, Except.map]

/-! ## Lookups -/

/-- The blocks from the given one downwards. -/
def descending (top : Int) (k : Nat) : List Int := (List.range k).map fun i : Nat => top - i

theorem descending_succ (top : Int) (k : Nat) : descending top (k + 1) = top :: descending (top - 1) k := by
  simp only [descending, List.range_succ_eq_map, List.map_cons, List.map_map, Nat.cast_zero, Int.sub_zero]
  refine congrArg (top :: ·) (List.map_congr_left fun i _ => ?_)
  simp only [Function.comp_apply, Nat.succ_eq_add_one]
  omega

theorem mem_descending {top m : Int} {k : Nat} : m ∈ descending top k ↔ top - k < m ∧ m ≤ top := by
  simp only [descending, List.mem_map, List.mem_range]
  constructor
  · rintro ⟨i, hi, rfl⟩
    omega
  · intro h
    exact ⟨(top - m).toNat, by omega, by omega⟩

/-- What asks for a block with the hashes of its transactions. -/
def lookUpRequest (m : Int) : Request := ⟨"eth_getBlockByNumber", .arr [.str (hexNumeral m), .bool false]⟩

/-- Blocks are looked up one after the other, and nothing but the lookups makes a call; each block goes with what
its lookup ended with. -/
inductive LooksUp (c : Client) (o : Outside) : Journal → List (Int × Except Fault Json) → Journal → Prop
  | none {j : Journal} : LooksUp c o j [] j
  | next {j j₁ lines j' : Journal} {m : Int} {r : Except Fault Json} {looks : List (Int × Except Fault Json)} :
      lookUp c m o j = (r, j₁) → lines.Silent → LooksUp c o (j₁ ++ lines) looks j' →
      LooksUp c o j ((m, r) :: looks) j'

/-- What lookups down to a last block are for: the hash in the last of them, if none before it was good for
anything; null if there were no more blocks to look up. -/
inductive Concludes (top floor : Int) (looks : List (Int × Except Fault Json)) : Json → Prop
  | found {n : Int} {r : Except Fault Json} {hash : Json} : floor ≤ n → n ≤ top → looks.length = top - n + 1 →
      (n, r) ∈ looks → hit? r = some hash → (∀ p ∈ looks, n < p.1 → hit? p.2 = none) →
      Concludes top floor looks hash
  | nothing : looks.length = top - floor + 1 → (∀ p ∈ looks, hit? p.2 = none) → Concludes top floor looks .null

/-- A search of the blocks from the top down to the floor at most. -/
structure Scan (c : Client) (o : Outside) (top floor : Int) (j : Journal) (looks : List (Int × Except Fault Json))
    (result : Json) (j' : Journal) : Prop where
  chain : LooksUp c o j looks j'
  order : looks.map (·.1) = descending top looks.length
  outcome : Concludes top floor looks result

/-- The run is one of such a search, and it returns. -/
def Scans (c : Client) (o : Outside) (top floor : Int) (j : Journal) (run : Except Fault Json × Journal) : Prop :=
  ∃ looks result j', run = (.ok result, j') ∧ Scan c o top floor j looks result j'

variable {c : Client} {o : Outside} {b top floor : Int} {j j₁ j' lines : Journal} {r : Except Fault Json}
variable {looks : List (Int × Except Fault Json)} {result hash : Json}

/-- **The calls of lookups** are one for each block, in their order. -/
theorem LooksUp.calls {retries : Nat} (hretries : c.repetitions = .ok retries) (h : LooksUp c o j looks j') :
    ∃ more, j' = j ++ more ∧ more.Sends (· = looks.map fun p => lookUpRequest p.1) := by
  induction h with
  | none => exact ⟨[], (List.append_nil _).symm, Journal.sends_nil rfl⟩
  | @next j j₁ lines j' m r looks hlook hlines _ ih =>
    obtain ⟨call, hcall, hsends⟩ := Client.call_leaves hretries "eth_getBlockByNumber"
      (.arr [.str (hexNumeral m), .bool false]) o j
    have hj₁ : j₁ = j ++ call := by rw [← hcall]; exact (congrArg Prod.snd hlook).symm
    obtain ⟨more, rfl, hmore⟩ := ih
    refine ⟨call ++ (lines ++ more), by simp [hj₁], ?_⟩
    have hrest : (lines ++ more).Sends (· = looks.map fun p => lookUpRequest p.1) :=
      hlines.append hmore fun cs ds hcs hds => by rw [hcs, hds, List.nil_append]
    refine hsends.append hrest fun cs ds hcs hds => ?_
    rw [hcs, hds]
    rfl

theorem Scan.stop (h : floor = top + 1) : Scan c o top floor j [] .null j :=
  ⟨.none, rfl, .nothing (by simp [h]) (by simp)⟩

theorem Scan.hit (hlook : lookUp c top o j = (r, j₁)) (hhit : hit? r = some hash) (h : floor ≤ top) :
    Scan c o top floor j [(top, r)] hash j₁ := by
  refine ⟨.next hlook (Journal.sends_nil rfl) ?_, by simp [descending], ?_⟩
  · rw [List.append_nil]
    exact .none
  · exact .found h (Int.le_refl _) (by simp) (by simp) hhit (by simp)

/-- A lookup that is good for nothing comes before a search of the blocks below. -/
theorem Scan.skip (hlook : lookUp c top o j = (r, j₁)) (hmiss : hit? r = none) (hlines : lines.Silent)
    (h : Scan c o (top - 1) floor (j₁ ++ lines) looks result j') :
    Scan c o top floor j ((top, r) :: looks) result j' := by
  refine ⟨.next hlook hlines h.chain, ?_, ?_⟩
  · rw [List.map_cons, List.length_cons, descending_succ, h.order]
  · cases h.outcome with
    | found hfloor htop hlength hmem hhit hmisses =>
      refine .found hfloor (by omega) (by simp; omega) (List.mem_cons_of_mem _ hmem) hhit ?_
      exact List.forall_mem_cons.mpr ⟨fun _ => hmiss, hmisses⟩
    | nothing hlength hmisses =>
      exact .nothing (by simp; omega) (List.forall_mem_cons.mpr ⟨hmiss, hmisses⟩)

theorem Scans.skip {run : Except Fault Json × Journal} (hlook : lookUp c top o j = (r, j₁)) (hmiss : hit? r = none)
    (hlines : lines.Silent) (h : Scans c o (top - 1) floor (j₁ ++ lines) run) : Scans c o top floor j run := by
  obtain ⟨looks, result, j', hrun, hscan⟩ := h
  exact ⟨_, result, j', hrun, hscan.skip hlook hmiss hlines⟩

/-- Every lookup from the top down to the floor ends with a block that can be read, or with a fault of the tool's
own. -/
def Answers (c : Client) (o : Outside) (top floor : Int) : Prop :=
  ∀ m, floor ≤ m → m ≤ top → Act.Ends o (lookUp c m) Readable fun e _ => e.isOwn = true

/-- What the search does after a lookup that failed, where `rest` is the search of the blocks below. -/
theorem Scans.after_fault {e : Fault} {text : Except Fault Text} {rest : Act Json}
    (hlook : lookUp c top o j = (.error e, j₁)) (hrest : ∀ j, Scans c o (top - 1) floor j (rest o j)) :
    Scans c o top floor j ((do
      Act.logWritten .debug (some e) text
      rest : Act Json) o j₁) := by
  cases text with
  | ok text => exact Scans.skip hlook rfl (Journal.sends_quiet rfl rfl) (hrest _)
  | error =>
    -- The line is left out, so the search goes on from the lookup itself.
    have hsilent : Journal.Silent [] := Journal.sends_nil rfl
    refine Scans.skip hlook rfl hsilent ?_
    rw [List.append_nil]
    exact hrest j₁

/-- What it does after a lookup that succeeded. -/
theorem Scans.after_block {v : Json} {rest : Act Json} (hlook : lookUp c top o j = (.ok v, j₁)) (hv : Readable v)
    (h : floor ≤ top) (hrest : ∀ j, Scans c o (top - 1) floor j (rest o j)) :
    Scans c o top floor j ((do
      match ← firstTransaction? v with
      | some transaction => hashOf transaction
      | none => rest : Act Json) o j₁) := by
  have hsample := hv.sampleIn_eq
  rw [Probe.sampleIn_eq] at hsample
  rcases hfirst : firstTransaction? v with e | _ | transaction
  · simp [hfirst, bind, Except.bind] at hsample
  · rw [Act.lift_ok_bind]
    rw [hfirst] at hsample
    have hmiss : hit? (.ok v) = none := (Except.ok.inj hsample).symm
    have hsilent : Journal.Silent [] := Journal.sends_nil rfl
    refine Scans.skip hlook hmiss hsilent ?_
    rw [List.append_nil]
    exact hrest j₁
  · rw [Act.lift_ok_bind]
    rw [hfirst] at hsample
    rcases hhash : hashOf transaction with e | hash
    · simp [hhash, bind, Except.bind, Except.map] at hsample
    · simp only [hhash, bind, Except.bind, Except.map, Except.ok.injEq] at hsample
      have hhit : hit? (.ok v) = some hash := hsample.symm
      show Scans c o top floor j ((liftM (hashOf transaction) : Act Json) o j₁)
      rw [hhash]
      exact ⟨_, hash, j₁, rfl, .hit hlook hhit h⟩

/-- **The search**, from any of its steps. -/
theorem sampleFrom_scans {left i : Nat} (htop : top = b - i) (hi : 0 ≤ top + 1)
    (hfloor : floor = max 0 (top - left + 1)) (h : Answers c o top floor) (j : Journal) :
    Scans c o top floor j (sampleFrom c (.int b) left i o j) := by
  induction left generalizing i top j with
  | zero =>
    have hstop : floor = top + 1 := by omega
    exact ⟨[], .null, j, rfl, .stop hstop⟩
  | succ left ih =>
    have hbelow : blockBelow (.int b) i = .ok (.int top) := by
      rw [htop]
      rfl
    unfold sampleFrom
    rw [hbelow, Act.lift_ok_bind, Number.lt_int]
    split
    · rename_i hneg
      have hstop : floor = top + 1 := by
        have : top < 0 := by simpa using hneg
        omega
      exact ⟨[], .null, j, rfl, .stop hstop⟩
    · rename_i hnonneg
      have h0 : 0 ≤ top := by simpa using hnonneg
      have hle : floor ≤ top := by omega
      have hrest : ∀ j, Scans c o (top - 1) floor j (sampleFrom c (.int b) left (i + 1) o j) := fun j =>
        ih (by omega) (by omega) (by omega) (fun m hm hm' => h m hm (by omega)) j
      have hlookup : c.blockByNumber (Number.int top).toJson (.bool false) = lookUp c top := rfl
      have hends := h top hle (Int.le_refl _)
      rcases hlook : lookUp c top o j with ⟨e | v, j₁⟩
      · have hcaught := Act.attemptOwn_of_own hlook (hends.error hlook)
        rw [hlookup, Act.bind_apply_of_ok hcaught]
        exact Scans.after_fault hlook hrest
      · rw [hlookup, Act.bind_apply_of_ok (Act.attemptOwn_of_ok hlook)]
        exact Scans.after_block hlook (hends.ok hlook) hle hrest

/-- **The search for a transaction** in a block that is not below zero and in those before it, where each lookup ends
with a block that can be read or with a fault of the tool's own, whatever was asked before it. The search returns.
The blocks were looked up one after the other, downwards from the given one, and none that is out of range. What is
returned is the hash of the first transaction of the highest block that has one, and this block was the last to be
looked up; or it is null, all blocks in range were looked up, and none of them has any. Each lookup is one call, and
there are no others. -/
theorem sampleTransaction_scans {b left : Int} (hb : 0 ≤ b) (hleft : 0 ≤ left)
    (h : Answers c o b (max 0 (b - left + 1))) (j : Journal) :
    ∃ looks result j', sampleTransaction c (.int b) (.int left) o j = (.ok result, j') ∧
      LooksUp c o j looks j' ∧
      looks.map (·.1) = descending b looks.length ∧
      (∀ p ∈ looks, max 0 (b - left + 1) ≤ p.1 ∧ p.1 ≤ b) ∧
      ((∃ n block, max 0 (b - left + 1) ≤ n ∧ n ≤ b ∧ looks.length = b - n + 1 ∧ (n, .ok block) ∈ looks ∧
          firstHash? block = some result ∧ ∀ p ∈ looks, n < p.1 → hit? p.2 = none) ∨
        result = .null ∧ looks.length = min left (b + 1) ∧ ∀ p ∈ looks, hit? p.2 = none) ∧
      ∀ retries : Nat, c.repetitions = .ok retries → ∃ more, j' = j ++ more ∧
        more.Sends (· = looks.map fun p => lookUpRequest p.1) := by
  have hrun : sampleTransaction c (.int b) (.int left) = sampleFrom c (.int b) left.toNat 0 := rfl
  have hscans : Scans c o b (max 0 (b - left + 1)) j (sampleFrom c (.int b) left.toNat 0 o j) :=
    sampleFrom_scans (by simp) (by omega) (by rw [Int.toNat_of_nonneg hleft]) h j
  obtain ⟨looks, result, j', hended, hchain, horder, houtcome⟩ := hscans
  have hmem : ∀ p ∈ looks, b - looks.length < p.1 ∧ p.1 ≤ b := fun p hp => by
    have hdown : p.1 ∈ descending b looks.length := horder ▸ List.mem_map.mpr ⟨p, hp, rfl⟩
    exact mem_descending.mp hdown
  refine ⟨looks, result, j', hrun ▸ hended, hchain, horder, fun p hp => ?_, ?_, fun retries hretries =>
    hchain.calls hretries⟩
  · have := hmem p hp
    cases houtcome <;> omega
  · cases houtcome with
    | @found n r _ hfloor htop hlength hlast hhit hmisses =>
      cases r with
      | error e => cases hhit
      | ok block => exact .inl ⟨n, block, hfloor, htop, hlength, hlast, hhit, hmisses⟩
    | nothing hlength hmisses => exact .inr ⟨rfl, by omega, hmisses⟩

/-- Block two cannot be had, block one is not given, and every other block has one transaction. -/
def sparseEndpoint : Outside := Client.answering fun request =>
  match request.params with
  | .arr [.str n, _] =>
    if n == "0x2" then none
    else if n == "0x1" then some .null
    else some (.obj [("transactions", .arr [.str "0x0a"])])
  | _ => none

theorem answers_sparse : Answers Sample.client sparseEndpoint 2 0 := by
  intro m h0 h2
  have hgets : ∀ {block}, Sample.client.Gets sparseEndpoint "eth_getBlockByNumber"
      (.arr [.str (hexNumeral m), .bool false]) block → Readable block →
      Act.Ends sparseEndpoint (lookUp Sample.client m) Readable fun e _ => e.isOwn = true := fun hgets hblock =>
    hgets.ends.imp fun _ heq => heq ▸ hblock
  obtain rfl | rfl | rfl : m = 0 ∨ m = 1 ∨ m = 2 := by omega
  · refine hgets (Client.gets_answering (k := 4) rfl rfl) (.listed rfl ?_)
    simp [HasHash]
  · exact hgets (Client.gets_answering (k := 4) rfl rfl) .missing
  · have hfails : Sample.client.Fails sparseEndpoint "eth_getBlockByNumber"
        (.arr [.str (hexNumeral 2), .bool false]) := Client.fails_answering (k := 4) rfl rfl
    exact hfails.imp fun _ h => h.elim

/-- Whether a search ended with the text. -/
def foundText (t : Text) : Except Fault Json → Bool
  | .ok (.str hash) => hash == t
  | _ => false

/-- The search from block two comes down to block zero, where it would stop in any case. -/
theorem sampleTransaction_scans_sparse :
    ((0 : Int) ≤ 2 ∧ (0 : Int) ≤ 5 ∧ Answers Sample.client sparseEndpoint 2 (max 0 (2 - 5 + 1))) ∧
    ∃ looks j', sampleTransaction Sample.client (.int 2) (.int 5) sparseEndpoint [] = (.ok (.str "0x0a"), j') ∧
      LooksUp Sample.client sparseEndpoint [] looks j' ∧ looks.map (·.1) = [2, 1, 0] ∧
      j'.calls = [2, 1, 0].map lookUpRequest := by
  refine ⟨⟨by decide, by decide, answers_sparse⟩, ?_⟩
  have hfound : foundText "0x0a" (sampleTransaction Sample.client (.int 2) (.int 5) sparseEndpoint []).1 = true := by
    decide +kernel
  have hthree : (sampleTransaction Sample.client (.int 2) (.int 5) sparseEndpoint []).2.calls.length = 3 := by
    decide +kernel
  obtain ⟨looks, result, j', hrun, hchain, horder, -, -, hcalls⟩ :=
    sampleTransaction_scans (show (0 : Int) ≤ 2 by decide) (show (0 : Int) ≤ 5 by decide) answers_sparse []
  obtain ⟨more, rfl, hsends⟩ := hcalls 4 rfl
  rw [hrun] at hfound hthree
  have hlength : looks.length = 3 := by simpa [hsends.2] using hthree
  have hblocks : looks.map (·.1) = [2, 1, 0] := by rw [horder, hlength]; rfl
  have hresult : result = .str "0x0a" := by
    cases result with
    | str t => rw [beq_iff_eq.mp hfound]
    | _ => cases hfound
  refine ⟨looks, _, hresult ▸ hrun, hchain, hblocks, ?_⟩
  rw [hsends.2, ← hblocks, List.map_map]
  rfl

end AssertionReplay.Probe
