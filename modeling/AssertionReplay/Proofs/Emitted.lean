/-
Which of the records that a fetch returns can be sent to another process.

A fetch puts addresses into their checksummed form and reads numbers that are
not negative, and those who read a payload ask for just that; but they ask for
more than a fetch sees to. A record can have a hash that is no number, the
number of a block below zero, or a truth value in the place of a number, and
then the whole payload that it stands in is not read back
(`fetched_records_read_back_iff`).
-/
import AssertionReplay.Proofs.Channel
import AssertionReplay.Proofs.DirectCalls
import AssertionReplay.Proofs.Provenance
import AssertionReplay.Proofs.Survival

namespace AssertionReplay

open Text

/-- What is printed of the records, in a form, is read as these records. -/
def Payload.ReadsBack (format : Format) (rs : List Record) : Prop :=
  ∀ o j, ∃ written : Journal, CommandLine.printPayload (.str format.name) rs o j = (.ok (), j ++ written) ∧
    parseOutput written.printed = .ok rs

theorem Payload.readsBack_iff {format : Format} {rs : List Record} (o : Outside) :
    ReadsBack format rs ↔ (∀ r ∈ rs, r.Canonical) ∧ (format = .simple → HasNumeral rs.length) := by
  rw [← written_and_read_iff format]
  constructor
  · intro h
    obtain ⟨written, hprint, hread⟩ := h o []
    rcases hwrite : write format rs with e | payload
    · rw [CommandLine.printPayload, ofName_name, Act.lift_ok_bind, hwrite] at hprint
      cases hprint
    · rw [printPayload_of_write hwrite, Prod.mk.injEq, List.append_cancel_left_eq] at hprint
      obtain ⟨-, rfl⟩ := hprint
      exact ⟨payload, rfl, by rwa [← printed_frame]⟩
  · intro h o j
    obtain ⟨payload, hwrite, hread⟩ := h
    exact ⟨_, printPayload_of_write hwrite o j, by rwa [printed_frame]⟩

namespace Record

/-- What a fetch does not see to: the hash is a number other than zero in its written form, the block
is not below zero, and no number is a truth value. -/
structure Regular (r : Record) : Prop where
  hash : lower (trim r.hash) = r.hash
  number : ∃ n, readInt? 16 r.hash = some n ∧ n ≠ 0
  block : 0 ≤ r.block.toInt
  whole : ∀ q ∈ r.quantities, ∃ n, q = .int n

/-- **The rest is seen to when an object is read.** -/
theorem FromObject.normal_iff {r : Record} (h : r.FromObject) : r.Normal ↔ r.Regular := by
  constructor
  · intro hr
    refine ⟨hr.hash, hr.number, ?_, fun q hq => ?_⟩
    · obtain ⟨n, hn⟩ := hr.quantities r.block (by simp [quantities])
      rw [hn]
      exact Int.natCast_nonneg n
    · obtain ⟨n, hn⟩ := hr.quantities q hq
      exact ⟨n, hn⟩
  · intro hr
    obtain ⟨members, block?, hread⟩ := h.readFrom
    have hwhole := hr.whole
    have hnumber : ∀ {v : Json} {q : Quantity}, Field.quantity v = .ok q → (∃ n, q = .int n) →
        ∃ n : Nat, q = .int n := by
      intro v q hq hint
      obtain ⟨n, rfl⟩ := hint
      rcases Field.quantity_cases hq with ⟨b, hb⟩ | hnat
      · cases hb
      · exact hnat
    have hblock : (∃ n, r.block = .int n) → ∃ n : Nat, r.block = .int n := by
      intro hint
      obtain ⟨n, hn⟩ := hint
      have hnonneg : 0 ≤ n := by simpa [hn, Quantity.toInt] using hr.block
      exact ⟨n.toNat, by rw [hn, Int.toNat_of_nonneg hnonneg]⟩
    refine ⟨hr.hash, hr.number, h.addresses.1, h.addresses.2, ?_⟩
    simp only [quantities, List.forall_mem_cons, List.not_mem_nil, false_imp_iff, implies_true, and_true]
      at hwhole ⊢
    obtain ⟨hv, hb, hi, hp, hl, hf, ht⟩ := hwhole
    exact ⟨hnumber hread.value hv, hblock hb, hnumber hread.index hi, hnumber hread.gasPrice hp,
      hnumber hread.gasLimit hl, hnumber hread.maxFee hf, hnumber hread.maxPriorityFee ht⟩

end Record

namespace Fetcher

variable {o : Outside}

/-- **What comes back of a fetch.** If every number of the returned records has a numeral, they are read
back from what is printed of them exactly if all of them are regular. (In the short form their number
needs a numeral as well.) -/
theorem fetched_records_read_back_iff (f : Fetcher) (o : Outside) (first last : Json) :
    Act.Yields o (f.fetch first last) fun r =>
      (∀ record ∈ r.records, ∀ q ∈ record.quantities, HasNumeral q.toInt) → ∀ format,
        (Payload.ReadsBack format r.records ↔
          (∀ record ∈ r.records, record.Regular) ∧ (format = .simple → HasNumeral r.records.length)) := by
  refine (fetch_from f o first last).imp fun r hr hnumerals format => ?_
  have hcanonical : (∀ record ∈ r.records, record.Canonical) ↔ ∀ record ∈ r.records, record.Regular := by
    refine forall_congr' fun record => forall_congr' fun hrecord => ?_
    rw [← (hr record hrecord).normal_iff]
    exact ⟨fun h => h.toNormal, fun h => ⟨h, hnumerals record hrecord⟩⟩
  rw [Payload.readsBack_iff o, hcanonical]

/-! ## One transaction -/

/-- The first block, with one transaction. -/
def singleBlock (transaction : Json) : Json :=
  .obj [("number", .str (hexNumeral 1)), ("transactions", .arr [transaction])]

def singleEndpoint (transaction : Json) : Outside := Client.answering fun request =>
  if request.method == "eth_getBlockByNumber" then some (singleBlock transaction) else none

section

variable {transaction : Json} {record : Record}
  (hread : Record.ofTransaction transaction (some (.int 1)) = .ok record)
  (hto : Field.member transaction "to" = .ok (.str Sample.address))

include hread hto

theorem directCalls_single :
    directCalls Sample.address 1 [] [transaction] = .ok [(record.hash, record)] := by
  rw [directCalls, hto]
  simp only [bind, Except.bind, same_address, if_true, hread]
  rfl

/-- The transaction is all that a fetch of the block returns. -/
theorem fetch_singleEndpoint (j : Journal) :
    ∃ r, (directFetcher.fetch (.int 1) (.int 1) (singleEndpoint transaction) j).1 = .ok r ∧ r.records = [record] := by
  have hobject : isObject transaction = true := by
    obtain ⟨members, rfl⟩ := Record.ofTransaction_obj hread
    rfl
  have hcontent : ∀ n j, (directFetcher.contentOf n (singleEndpoint transaction) j).1 =
      .ok (some ⟨1, [transaction], [(record.hash, record)]⟩) := by
    intro n j
    have hblock : readBlock directFetcher.target n (singleBlock transaction) =
        .ok ⟨1, [transaction], [(record.hash, record)]⟩ :=
      readBlock_ok (by decide) rfl rfl (List.forall_mem_singleton.mpr hobject) (directCalls_single hread hto)
    have hgets : directFetcher.client.Gets (singleEndpoint transaction) "eth_getBlockByNumber" (blockParams n)
        (singleBlock transaction) := Client.gets_answering (k := 4) rfl rfl
    obtain ⟨_, hc, rfl⟩ := contentOf_ensures rfl hgets hblock j
    exact hc
  have hreturns := fetch_untraced rfl rfl (sized_of_create directFetcher_created) (by decide) (Int.le_refl 1) hcontent
  obtain ⟨r, hr, hblocks, hrecords⟩ := hreturns.ensures rfl j
  obtain ⟨b, rest, hb, hrest, hall⟩ := List.forall₂_cons_left_iff.mp hblocks
  have hnone : rest = [] := List.forall₂_nil_left_iff.mp hrest
  refine ⟨r, hr, ?_⟩
  rw [hrecords, hall, hnone]
  simp [mergedRecords, firstOccurrences, hb, untraced, OrderedMap.contains, Record.inChainOrder]

end

/-! ## A record that does not come back -/

/-- A transaction that calls the target, under a hash that is no number. -/
def oddTransaction : Json := .obj [("hash", .str "0xzz"), ("to", .str Sample.address)]

def oddBlock : Json := .obj [("number", .str (hexNumeral 1)), ("transactions", .arr [oddTransaction])]

def oddEndpoint : Outside := Client.answering fun request =>
  if request.method == "eth_getBlockByNumber" then some oddBlock else none

def oddRecord : Record where
  hash := "0xzz"
  sender := Address.zero
  recipient := Sample.address
  value := .int 0
  data := []
  block := .int 1
  index := .int 0
  gasPrice := .int 0

theorem ofTransaction_odd : Record.ofTransaction oddTransaction (some (.int 1)) = .ok oddRecord := by
  rw [oddTransaction, Record.ofTransaction_eq_ok_iff]
  exact ⟨⟨"0xzz", rfl, rfl⟩, ⟨_, rfl, rfl⟩, ⟨_, Sample.parse_address, rfl⟩,
    rfl, rfl, rfl, rfl, rfl, rfl, rfl, rfl⟩

theorem fetch_oddEndpoint (j : Journal) :
    ∃ r, (directFetcher.fetch (.int 1) (.int 1) oddEndpoint j).1 = .ok r ∧ r.records = [oddRecord] :=
  fetch_singleEndpoint ofTransaction_odd rfl j

theorem oddRecord_not_readsBack (format : Payload.Format) : ¬ Payload.ReadsBack format [oddRecord] := by
  intro hback
  obtain ⟨hcanonical, -⟩ := (Payload.readsBack_iff oddEndpoint).mp hback
  obtain ⟨n, hn, -⟩ := (hcanonical oddRecord (List.mem_singleton_self _)).number
  have hnot : readInt? 16 "0xzz" = none := by decide
  cases hnot.symm.trans hn

/-- The record of the odd transaction is let through, and what is printed of it is not read back. -/
theorem fetch_of_oddEndpoint :
    create Sample.client (.str Sample.address) (.int 1) (.int 1) false false none false = .ok directFetcher ∧
      ∀ j, ∃ r, (directFetcher.fetch (.int 1) (.int 1) oddEndpoint j).1 = .ok r ∧ r.records = [oddRecord] ∧
        ∀ format, ¬ Payload.ReadsBack format r.records := by
  refine ⟨directFetcher_created, fun j => ?_⟩
  obtain ⟨r, hr, hrecords⟩ := fetch_oddEndpoint j
  exact ⟨r, hr, hrecords, fun format => by rw [hrecords]; exact oddRecord_not_readsBack format⟩

end Fetcher
end AssertionReplay
