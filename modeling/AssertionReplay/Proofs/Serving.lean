/-
What a truthful endpoint answers about a chain.

The blocks of a chain are given as objects, and its call trees by one of three
requests: one for a transaction (`TracesTransactions`), one for a block
(`TracesBlocks`) and one for a range (`TracesRanges`). Logs come in receipts
(`GivesReceipts`). Where an endpoint may fail, a set tells which blocks are
lost and which transactions are missed, and it fails for these and answers the
truth for all others.
-/
import AssertionReplay.Detection
import AssertionReplay.Proofs.Block
import AssertionReplay.Proofs.Chain

namespace AssertionReplay

open Text

namespace Chain

/-- The endpoint gives the block under its number, with its transactions in order. -/
def Gives (chain : Chain) (o : Outside) (c : Client) (n : Int) : Prop :=
  ∃ v, c.Gets o "eth_getBlockByNumber" (Fetcher.blockParams n) v ∧
    Field.member v "number" = .ok (.str (hexNumeral n)) ∧
    Field.member v "transactions" = .ok (.arr ((chain.block n).map (·.object)))

/-- The endpoint gives the blocks of the range but the lost ones, for which it answers nothing or
fails. -/
def Served (chain : Chain) (o : Outside) (c : Client) (lost : Int → Bool) (first last : Int) : Prop :=
  ∀ n, first ≤ n → n ≤ last →
    if lost n then c.Misses o "eth_getBlockByNumber" (Fetcher.blockParams n) else chain.Gives o c n

/-! ## One transaction -/

/-- Traces of transactions are their call trees; for a missed one, the request fails. -/
def TracesTransactions (chain : Chain) (o : Outside) (c : Client) (missed : Mined → Bool)
    (first last : Int) : Prop :=
  ∀ n, first ≤ n → n ≤ last → ∀ t ∈ chain.block n,
    if missed t then c.Fails o "debug_traceTransaction" (.arr [.str t.key, Client.callTracer])
    else c.Gets o "debug_traceTransaction" (.arr [.str t.key, Client.callTracer]) t.tree

/-- Receipts hold the logs of their transactions; for a missed one, the request fails. -/
def GivesReceipts (chain : Chain) (o : Outside) (c : Client) (missed : Mined → Bool)
    (first last : Int) : Prop :=
  ∀ n, first ≤ n → n ≤ last → ∀ t ∈ chain.block n,
    if missed t then c.Fails o "eth_getTransactionReceipt" (.arr [.str t.key])
    else ∃ v, c.Gets o "eth_getTransactionReceipt" (.arr [.str t.key]) v ∧
      Field.member v "logs" = .ok (.arr t.logs)

end Chain

/-- The transaction is found by its hash. -/
def LooksUp (o : Outside) (c : Client) (t : Mined) : Prop :=
  c.Gets o "eth_getTransactionByHash" (.arr [.str t.key]) t.object

/-! ## One block -/

/-- The hash that a frame names, if it names one. -/
def frameName (frame : Json) : Json :=
  (frame.memberOr "txHash" .null).orElse (frame.memberOr "transactionHash" .null)

/-- A frame of a transaction, which it belongs to by the hash that it names, or else by its position.
It holds the call tree, or for a missed transaction an error. -/
structure FrameOf (ts : List Mined) (missed : Mined → Bool) (position : Nat) (frame : Json) (t : Mined) :
    Prop where
  mem : t ∈ ts
  named : (∃ hash, frameName frame = .str hash ∧ hash.isEmpty = false ∧ lower hash = t.key) ∨
    (frameName frame).isGiven = false ∧ ts[position]? = some t
  object : Fetcher.isObject frame = true
  tells : if missed t then (frame.memberOr "error" .null).isGiven = true
    else (frame.memberOr "error" .null).isGiven = false ∧ frame.memberOr "result" .null = t.tree

/-- Each frame is one of a transaction of the block, and of each transaction there is one unless it is
missed. -/
structure Frames (ts : List Mined) (missed : Mined → Bool) (frames : List Json) : Prop where
  sound : ∀ {i : Nat} {frame : Json}, frames[i]? = some frame → ∃ t, FrameOf ts missed i frame t
  complete : ∀ t ∈ ts, missed t = false →
    ∃ i frame, frames[i]? = some frame ∧ FrameOf ts missed i frame t

/-- Traces of blocks are frames of their transactions. A block may also be missed as a whole. -/
def Chain.TracesBlocks (chain : Chain) (o : Outside) (c : Client) (missed : Mined → Bool)
    (first last : Int) : Prop :=
  ∀ n, first ≤ n → n ≤ last →
    c.Fails o "debug_traceBlockByNumber" (.arr [.str (hexNumeral n), Client.callTracer]) ∧
        (∀ t ∈ chain.block n, missed t = true) ∨
      ∃ frames, c.Gets o "debug_traceBlockByNumber" (.arr [.str (hexNumeral n), Client.callTracer])
        (.arr frames) ∧ Frames (chain.block n) missed frames

/-- What a strategy for blocks asks for is answered. -/
def Chain.Tells (chain : Chain) (o : Outside) (c : Client) (missed : Mined → Bool) (first last : Int) :
    Strategy → Prop
  | .traceBlock => chain.TracesBlocks o c missed first last
  | .traceTransaction => chain.TracesTransactions o c missed first last
  | .receiptLogs => chain.GivesReceipts o c missed first last
  | .direct | .traceFilter => True

/-! ## A range -/

/-- The trace is of a call of `recipient` in the transaction. -/
structure TraceOf (trace : Json) (t : Mined) (recipient : Json) : Prop where
  hash : ∃ hash, trace.member? "transactionHash" = some (.str hash) ∧ lower hash = t.key
  action : Field.member (trace.memberOr "action" .null) "to" = .ok recipient

/-- Each trace is of a call in the range, and of each call of the address there is one. -/
structure Traces (chain : Chain) (address : Text) (first last : Int) (traces : List Json) : Prop where
  sound : ∀ trace ∈ traces, ∃ n t recipient, first ≤ n ∧ n ≤ last ∧ t ∈ chain.block n ∧
    recipient ∈ CallTree.recipients t.tree ∧ TraceOf trace t recipient
  complete : ∀ {n t recipient}, first ≤ n → n ≤ last → t ∈ chain.block n →
    recipient ∈ CallTree.recipients t.tree → Address.names address recipient = true →
    ∃ trace ∈ traces, TraceOf trace t recipient

/-- The parameters of a request for the traces of the calls of an address. -/
def filterParams (address : Text) (first last : Int) : Json :=
  .arr [.obj [("fromBlock", .str (hexNumeral first)), ("toBlock", .str (hexNumeral last)),
    ("toAddress", .arr [.str address])]]

/-- Every part of the range can be asked for the traces of the calls of an address. -/
def Chain.TracesRanges (chain : Chain) (o : Outside) (c : Client) (address : Text)
    (first last : Int) : Prop :=
  ∀ a b, first ≤ a → a ≤ b → b ≤ last → ∃ traces,
    c.Gets o "trace_filter" (filterParams address a b) (.arr traces) ∧ Traces chain address a b traces

/-! ## A sample chain -/

namespace Sample

/-- A transaction with a hash at a place of the chain; either it calls the address itself, or a call
below its top call does. -/
def mined (hash : Text) (n : Int) (position : Nat) (direct : Bool) : Mined where
  object := .obj [("hash", .str hash), ("to", if direct then .str address else .null),
    ("blockNumber", .str (hexNumeral n)), ("transactionIndex", .str (hexNumeral position))]
  hash := hash
  record := {
    hash := lower hash, sender := Address.zero, recipient := if direct then address else Address.zero
    value := .int 0, data := [], block := .int n, index := .int position, gasPrice := .int 0 }
  tree := if direct then .obj [("to", .str address)]
    else .obj [("to", .null), ("calls", .arr [.obj [("to", .str address)]])]
  logs := []

theorem mined_at {hash : Text} {n : Int} {position : Nat} {direct : Bool} (hne : hash.isEmpty = false)
    (hn : 0 ≤ n) (hposition : Field.quantity (.str (hexNumeral position)) = .ok (.int position)) :
    (mined hash n position direct).At n position where
  hash := rfl
  named := hne
  record := by
    rw [mined, Record.ofTransaction_eq_ok_iff]
    refine ⟨⟨hash, rfl, rfl⟩, ⟨Address.zero, rfl, rfl⟩, ?_, rfl, rfl, rfl, hposition, rfl, rfl, rfl, rfl⟩
    cases direct with
    | true => exact ⟨address, parse_address, rfl⟩
    | false => exact ⟨Address.zero, rfl, rfl⟩
  block := Field.hexInt_hexNumeral hn
  index := rfl
  tree := by
    cases direct with
    | true => exact CallTree.wellTyped_leaf (.inr ⟨_, rfl⟩) rfl
    | false =>
      refine CallTree.wellTyped_obj_iff.mpr ⟨⟨.inl rfl, .inr ⟨_, rfl⟩⟩, ?_⟩
      exact List.forall_mem_singleton.mpr (CallTree.wellTyped_leaf (.inr ⟨_, rfl⟩) rfl)
  logs := by simp [mined]

/-- Three transactions of one block and one of the next. -/
def blockOne : List Mined := [mined "0xD1" 1 0 true, mined "0xE2" 1 1 false, mined "0xe3" 1 2 false]

def blockTwo : List Mined := [mined "0xD4" 2 0 true]

/-- Where a hash stands. -/
def place : Text → Int × Nat := fun key =>
  if key == "0xd1" then (1, 0) else if key == "0xe2" then (1, 1) else if key == "0xe3" then (1, 2) else (2, 0)

def block (n : Int) : List Mined :=
  if n = 1 then blockOne else if n = 2 then blockTwo else []

theorem of_block {n : Int} {i : Nat} {t : Mined} (h : (block n)[i]? = some t) :
    t.At n i ∧ place t.key = (n, i) := by
  unfold block at h
  split at h
  · subst n
    match i, h with
    | 0, rfl => exact ⟨mined_at rfl (by decide) rfl, rfl⟩
    | 1, rfl => exact ⟨mined_at rfl (by decide) rfl, rfl⟩
    | 2, rfl => exact ⟨mined_at rfl (by decide) rfl, rfl⟩
  · split at h
    · subst n
      match i, h with
      | 0, rfl => exact ⟨mined_at rfl (by decide) rfl, rfl⟩
    · simp at h

def chain : Chain where
  block := block
  mined h := (of_block h).1
  distinct h h' hkey := by
    have hplace := (of_block h).2
    rw [hkey, (of_block h').2] at hplace
    simpa [eq_comm] using hplace

/-- The transaction that is asked for by hash. -/
def named? : Json → Option Mined
  | .arr (.str key :: _) => (blockOne ++ blockTwo).find? fun t => t.key == key
  | _ => none

/-- The block that is asked for by number. -/
def numbered? : Json → Option Int
  | .arr (n :: _) => (Field.hexInt n).toOption
  | _ => none

/-- A block as an object. -/
def blockObject (n : Int) : Json :=
  .obj [("number", .str (hexNumeral n)), ("transactions", .arr ((block n).map (·.object)))]

/-- The frame of a transaction, with an error for a missed one. -/
def frame (missed : Text → Bool) (t : Mined) : Json :=
  .obj [("txHash", .str t.hash),
    if missed t.key then ("error", .str "execution timeout") else ("result", t.tree)]

/-- The trace of a transaction's one call of the address. -/
def trace (t : Mined) : Json :=
  .obj [("transactionHash", .str t.hash), ("action", .obj [("to", .str address)])]

/-- The traces of the range that is asked for. -/
def traces? : Json → Option (List Json)
  | .arr (filter :: _) => do
    let first ← (Field.hexInt (filter.memberOr "fromBlock" .null)).toOption
    let last ← (Field.hexInt (filter.memberOr "toBlock" .null)).toOption
    return ((Fetcher.blocksBetween first last).flatMap block).map trace
  | _ => none

/-- The truth about the sample chain, but for lost blocks and missed transactions. -/
def answer? (lost : Int → Bool) (missed : Text → Bool) (request : Request) : Option Json :=
  if request.method == "eth_getBlockByNumber" then
    (numbered? request.params).bind fun n => if lost n then none else some (blockObject n)
  else if request.method == "debug_traceBlockByNumber" then
    (numbered? request.params).map fun n => .arr ((block n).map (frame missed))
  else if request.method == "trace_filter" then (traces? request.params).map .arr
  else if request.method == "eth_getTransactionByHash" then (named? request.params).map (·.object)
  else if request.method == "debug_traceTransaction" then
    (named? request.params).bind fun t => if missed t.key then none else some t.tree
  else none

def endpoint (lost : Int → Bool) (missed : Text → Bool) : Outside :=
  Client.answering (answer? lost missed)

variable {lost : Int → Bool} {missed : Text → Bool} {n a b : Int} {t : Mined}

theorem numbered_hexNumeral (hn : 0 ≤ n) (rest : List Json) :
    numbered? (.arr (.str (hexNumeral n) :: rest)) = some n := by
  rw [numbered?, Field.hexInt_hexNumeral hn]
  rfl

theorem mem_blocks (ht : t ∈ chain.block n) : t ∈ blockOne ++ blockTwo := by
  simp only [chain, block] at ht
  split at ht
  · exact List.mem_append_left _ ht
  · split at ht
    · exact List.mem_append_right _ ht
    · cases ht

theorem named_key (ht : t ∈ chain.block n) (rest : List Json) :
    named? (.arr (.str t.key :: rest)) = some t := by
  rcases mem_blocks ht with _ | ⟨_, _ | ⟨_, _ | ⟨_, _ | ⟨_, ⟨⟩⟩⟩⟩⟩ <;> rfl

theorem served (h0 : 0 ≤ a) : chain.Served (endpoint lost missed) client lost a b := by
  intro n hn _
  have hanswer : answer? lost missed ⟨"eth_getBlockByNumber", Fetcher.blockParams n⟩ =
      if lost n then none else some (blockObject n) := by
    show (numbered? (Fetcher.blockParams n)).bind _ = _
    rw [Fetcher.blockParams, numbered_hexNumeral (by omega), Option.bind_some]
  split
  · rename_i hl
    rw [if_pos hl] at hanswer
    exact (Client.fails_answering (k := 4) rfl hanswer).misses
  · rename_i hl
    rw [if_neg hl] at hanswer
    exact ⟨blockObject n, Client.gets_answering (k := 4) rfl hanswer, rfl, rfl⟩

theorem looksUp (ht : t ∈ chain.block n) : LooksUp (endpoint lost missed) client t := by
  refine Client.gets_answering (k := 4) rfl ?_
  show (named? (.arr [.str t.key])).map _ = _
  rw [named_key ht, Option.map_some]

theorem tracesTransactions :
    chain.TracesTransactions (endpoint lost missed) client (fun t => missed t.key) a b := by
  intro n _ _ t ht
  have hanswer : answer? lost missed ⟨"debug_traceTransaction", .arr [.str t.key, Client.callTracer]⟩ =
      if missed t.key then none else some t.tree := by
    show (named? (.arr [.str t.key, Client.callTracer])).bind _ = _
    rw [named_key ht, Option.bind_some]
  split
  · rename_i hm
    rw [if_pos hm] at hanswer
    exact Client.fails_answering (k := 4) rfl hanswer
  · rename_i hm
    rw [if_neg hm] at hanswer
    exact Client.gets_answering (k := 4) rfl hanswer

theorem frameOf {ts : List Mined} {position : Nat} (ht : t ∈ ts) (hne : t.hash.isEmpty = false) :
    FrameOf ts (fun t => missed t.key) position (frame missed t) t where
  mem := ht
  named := by
    have hname : (Json.str t.hash).orElse ((frame missed t).memberOr "transactionHash" .null) =
        .str t.hash := by
      simp [Json.orElse, Json.isGiven, hne]
    exact .inl ⟨t.hash, hname, hne, rfl⟩
  object := rfl
  tells := by
    cases hm : missed t.key with
    | true =>
      simp only [frame, hm]
      rfl
    | false =>
      simp only [frame, hm]
      exact ⟨rfl, rfl⟩

theorem tracesBlocks (h0 : 0 ≤ a) :
    chain.TracesBlocks (endpoint lost missed) client (fun t => missed t.key) a b := by
  intro n hn _
  have hnamed : ∀ t ∈ chain.block n, t.hash.isEmpty = false := by
    intro t ht
    obtain ⟨i, hi⟩ := Chain.at_of_mem ht
    exact hi.named
  have hanswer : answer? lost missed
      ⟨"debug_traceBlockByNumber", .arr [.str (hexNumeral n), Client.callTracer]⟩ =
        some (.arr ((chain.block n).map (frame missed))) := by
    show (numbered? (.arr [.str (hexNumeral n), Client.callTracer])).map _ = _
    rw [numbered_hexNumeral (by omega), Option.map_some]
    rfl
  refine .inr ⟨(chain.block n).map (frame missed), Client.gets_answering (k := 4) rfl hanswer, ?_, ?_⟩
  · intro i v hi
    rw [List.getElem?_map, Option.map_eq_some_iff] at hi
    obtain ⟨t, ht, rfl⟩ := hi
    have hmem := List.mem_of_getElem? ht
    exact ⟨t, frameOf hmem (hnamed t hmem)⟩
  · intro t ht _
    obtain ⟨i, hi⟩ := List.mem_iff_getElem?.mp ht
    exact ⟨i, frame missed t, by simp [hi], frameOf ht (hnamed t ht)⟩

/-- Each transaction calls the address once, and else nothing. -/
theorem recipients_tree (ht : t ∈ chain.block n) (r : Json) :
    .str address ∈ CallTree.recipients t.tree ∧
      (r ∈ CallTree.recipients t.tree → r = .str address ∨ r = .null) := by
  have htree : t.tree = .obj [("to", .str address)] ∨
      t.tree = .obj [("to", .null), ("calls", .arr [.obj [("to", .str address)]])] := by
    rcases mem_blocks ht with _ | ⟨_, _ | ⟨_, _ | ⟨_, _ | ⟨_, ⟨⟩⟩⟩⟩⟩
    exacts [.inl rfl, .inr rfl, .inr rfl, .inl rfl]
  rcases htree with h | h <;> rw [h]
  · exact ⟨.head _, by rintro (_ | ⟨_, ⟨⟩⟩); exact .inl rfl⟩
  · exact ⟨.tail _ (.head _), by rintro (_ | ⟨_, _ | ⟨_, ⟨⟩⟩⟩); exacts [.inr rfl, .inl rfl]⟩

theorem tracesRanges (h0 : 0 ≤ a) : chain.TracesRanges (endpoint lost missed) client address a b := by
  intro first last hfirst hle _
  have hmem : ∀ t, t ∈ (Fetcher.blocksBetween first last).flatMap chain.block ↔
      ∃ n, first ≤ n ∧ n ≤ last ∧ t ∈ chain.block n := by
    intro t
    simp only [List.mem_flatMap, Fetcher.mem_blocksBetween, and_assoc]
  have hanswer : answer? lost missed ⟨"trace_filter", filterParams address first last⟩ =
      some (.arr (((Fetcher.blocksBetween first last).flatMap chain.block).map trace)) := by
    show (traces? (filterParams address first last)).map Json.arr = _
    have hfrom : (Field.hexInt (.str (hexNumeral first))).toOption = some first := by
      rw [Field.hexInt_hexNumeral (by omega)]
      rfl
    have hto : (Field.hexInt (.str (hexNumeral last))).toOption = some last := by
      rw [Field.hexInt_hexNumeral (by omega)]
      rfl
    have htraces : traces? (filterParams address first last) =
        (Field.hexInt (.str (hexNumeral first))).toOption.bind fun first =>
          (Field.hexInt (.str (hexNumeral last))).toOption.bind fun last =>
            some (((Fetcher.blocksBetween first last).flatMap block).map trace) := rfl
    rw [htraces, hfrom, hto]
    rfl
  refine ⟨_, Client.gets_answering (k := 4) rfl hanswer, ?_, ?_⟩
  · intro v hv
    obtain ⟨t, ht, rfl⟩ := List.mem_map.mp hv
    obtain ⟨n, hn, hn', ht⟩ := (hmem t).mp ht
    exact ⟨n, t, .str address, hn, hn', ht, (recipients_tree ht .null).1, ⟨t.hash, rfl, rfl⟩, rfl⟩
  · intro n t r hn hn' ht hr hnames
    refine ⟨trace t, List.mem_map_of_mem ((hmem t).mpr ⟨n, hn, hn', ht⟩), ?_⟩
    rcases (recipients_tree ht r).2 hr with rfl | rfl
    · exact ⟨⟨t.hash, rfl, rfl⟩, rfl⟩
    · cases hnames

theorem calls_mined {hash : Text} {position : Nat} {direct : Bool} :
    (mined hash n position direct).calls address = direct := by
  cases direct with
  | true => exact names_address
  | false => rfl

theorem reaches_address (ht : t ∈ chain.block n) : t.reaches address = true :=
  List.any_eq_true.mpr ⟨_, (recipients_tree ht .null).1, names_address⟩

theorem records_eq (touching : Int → Mined → Bool) : chain.records touching 1 2 =
    (blockOne.filter (touching 1) ++ blockTwo.filter (touching 2)).map (·.record) := by
  rw [List.map_append]
  exact congrArg (_ ++ ·) (List.append_nil _)

theorem records_all {touching : Int → Mined → Bool} (h : ∀ n, ∀ t ∈ chain.block n, touching n t = true) :
    chain.records touching 1 2 = (blockOne ++ blockTwo).map (·.record) := by
  have hone : blockOne.filter (touching 1) = blockOne := List.filter_eq_self.mpr (h 1)
  have htwo : blockTwo.filter (touching 2) = blockTwo := List.filter_eq_self.mpr (h 2)
  rw [records_eq, hone, htwo]

/-- Nothing is lost, and nothing is missed. -/
def truthful : Outside := endpoint (fun _ => false) fun _ => false

theorem rooted (ht : t ∈ chain.block n) : t.Rooted := by
  rcases mem_blocks ht with _ | ⟨_, _ | ⟨_, _ | ⟨_, _ | ⟨_, ⟨⟩⟩⟩⟩⟩ <;> intro address h <;> exact h

end Sample
end AssertionReplay
