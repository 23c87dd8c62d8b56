/-
An endpoint cannot forge the frame that its transactions are printed in.

The endpoint chooses the fields of the records, but not the letters that they
are written in: a hash is put into lower case, and addresses, bytes and numbers
are written anew, so that no field of a record that was read from an object
holds the capital `R` of the marker (`Record.FromObject.fields`). What a
payload adds to its fields has no capital either, and ends in no white space.
So whatever is fetched, the frame has the three markers that were written, and
what is extracted is the payload (`fetched_payload_unforged`).
-/
import AssertionReplay.Proofs.Emitted

namespace AssertionReplay

open Text

/-! ## Fields -/

theorem Text.not_settled_R : ¬ SettledLetter (.char 'R') := by
  unfold SettledLetter Settled
  decide

namespace Record

theorem FromObject.hash_letters {r : Record} (h : r.FromObject) : Letter.char 'R' ∉ r.hash.letters := by
  obtain ⟨members, block?, hread⟩ := h.readFrom
  obtain ⟨t, -, hhash⟩ := hread.hash
  rw [hhash]
  exact fun hmem => not_settled_R (settled_lowerAfter hmem)

/-- **No field holds the marker's `R`**, if the record was read from an object. -/
theorem FromObject.fields {r : Record} (h : r.FromObject) {fields : List Text}
    (hfields : Payload.fieldsOf r = .ok fields) : ∀ t ∈ fields, Letter.char 'R' ∉ t.letters := by
  have haddress : ∀ {t : Text}, Address.IsChecksummed t → Letter.char 'R' ∉ t.letters := by
    intro t ht
    obtain ⟨cs, rfl, hcs⟩ := ht.chars
    simpa using fun hmem => absurd (hcs _ hmem) (by decide)
  have hrecipient : Letter.char 'R' ∉ (if r.isCreation then ("" : Text) else r.recipient).letters := by
    split
    · exact List.not_mem_nil
    · exact haddress h.addresses.2
  have hdata : Letter.char 'R' ∉ (Field.hexOfBytes r.data : Text).letters := by
    rw [Field.hexOfBytes, ofString_ofList, letters_ofChars]
    intro hmem
    have hdigit : 'R' ∈ encodeHex r.data := by simpa using hmem
    obtain ⟨d, hd, heq⟩ := mem_encodeHex hdigit
    exact (by decide : ∀ d < 16, 'R' ≠ hexDigit d) d hd heq
  obtain ⟨value, block, index, price, limit, fee, tip, htexts, rfl⟩ := Payload.exists_of_fieldsOf hfields
  have hnumber : ∀ s ∈ [value, block, index, price, limit, fee, tip], Letter.char 'R' ∉ (s : Text).letters := by
    intro s hs hmem
    obtain ⟨q, -, hq⟩ := exists_of_forall₂ htexts.flip hs
    rcases (Payload.mem_text? hq).2 'R' (by simpa [ofString] using hmem) with ⟨d, hd, heq⟩ | hname
    · exact (by decide : ∀ d < 10, 'R' ≠ Nat.digitChar d) d hd heq
    · exact absurd hname (by decide)
  simp only [List.forall_mem_cons, List.not_mem_nil, false_imp_iff, implies_true, and_true] at hnumber ⊢
  obtain ⟨hvalue, hblock, hindex, hprice, hlimit, hfee, htip⟩ := hnumber
  exact ⟨h.hash_letters, haddress h.addresses.1, hrecipient, hvalue, hdata, hblock, hindex, hprice, hlimit, hfee, htip⟩

end Record

/-! ## Payloads -/

namespace Payload

theorem not_hasMarker_of_fromObject {rs : List Record} (h : ∀ r ∈ rs, r.FromObject) {format : Format}
    {payload : Text} (hwrite : write format rs = .ok payload) : ¬ HasMarker payload := by
  refine not_hasMarker_of_letter (l := .char 'R') (by decide) fun hmem => ?_
  obtain ⟨r, hr, fields, hfields, t, ht, hmem⟩ := capital_of_write hwrite rfl hmem
  exact (h r hr).fields hfields t ht hmem

end Payload

namespace Fetcher

open Payload

/-- **The endpoint cannot forge the frame.** Whatever it answers: printing what is fetched, in either form
in which it can be written, succeeds; after text without a marker, what is printed makes it three; and
from all of it, whatever comes after it, the payload is extracted as it was written. -/
theorem fetched_payload_unforged (f : Fetcher) (o : Outside) (first last : Json) :
    Act.Yields o (f.fetch first last) fun r => ∀ format payload, write format r.records = .ok payload →
      ∃ written : Journal,
        (∀ o' j, CommandLine.printPayload (.str format.name) r.records o' j = (.ok (), j ++ written)) ∧
        ∀ before after, ¬ HasMarker before →
          markers (before ++ written.printed) = 3 ∧ extract (before ++ written.printed ++ after) = payload := by
  refine (fetch_from f o first last).imp fun r hr format payload hwrite => ?_
  have hpayload := not_hasMarker_of_fromObject hr hwrite
  refine ⟨_, printPayload_of_write hwrite, fun before after hbefore => ?_⟩
  rw [printed_frame]
  exact ⟨markers_framed hbefore hpayload, extract_framed after hbefore hpayload (unpadded_of_write hwrite).rdropWhile⟩

/-- A transaction whose hash is a frame of its own. -/
def forgingTransaction : Json := .obj [("hash", .str (framed "0")), ("to", .str Sample.address)]

def forgingRecord : Record where
  hash := lower (framed "0")
  sender := Address.zero
  recipient := Sample.address
  value := .int 0
  data := []
  block := .int 1
  index := .int 0
  gasPrice := .int 0

theorem ofTransaction_forging :
    Record.ofTransaction forgingTransaction (some (.int 1)) = .ok forgingRecord := by
  rw [forgingTransaction, Record.ofTransaction_eq_ok_iff]
  exact ⟨⟨framed "0", rfl, rfl⟩, ⟨_, rfl, rfl⟩, ⟨_, Sample.parse_address, rfl⟩, rfl, rfl, rfl, rfl, rfl, rfl, rfl, rfl⟩

/-- The transaction is let through, and its frame is not taken for the one that is written. -/
theorem fetch_of_forgingEndpoint :
    create Sample.client (.str Sample.address) (.int 1) (.int 1) false false none false = .ok directFetcher ∧
      ∀ j, ∃ r payload, (directFetcher.fetch (.int 1) (.int 1) (singleEndpoint forgingTransaction) j).1 = .ok r ∧
        HasMarker (framed "0") ∧ r.records = [forgingRecord] ∧ write .simple r.records = .ok payload ∧
        ∃ written : Journal,
          CommandLine.printPayload (.str Format.simple.name) r.records (singleEndpoint forgingTransaction) j =
            (.ok (), j ++ written) ∧
          markers ("" ++ written.printed) = 3 ∧ extract ("" ++ written.printed ++ framed "0") = payload := by
  refine ⟨directFetcher_created, fun j => ?_⟩
  obtain ⟨r, hr, hrecords⟩ := fetch_singleEndpoint ofTransaction_forging rfl j
  obtain ⟨payload, hwrite⟩ : ∃ payload, write .simple r.records = .ok payload := by
    rw [hrecords]
    exact ⟨_, rfl⟩
  obtain ⟨written, hprint, hframe⟩ :=
    (fetched_payload_unforged directFetcher (singleEndpoint forgingTransaction) (.int 1) (.int 1)).ok
      (Prod.ext hr rfl) .simple payload hwrite
  have hbefore : ¬ HasMarker "" := not_hasMarker (by decide)
  exact ⟨r, payload, hr, by decide, hrecords, hwrite, written, hprint _ j, hframe "" (framed "0") hbefore⟩

end Fetcher
end AssertionReplay
