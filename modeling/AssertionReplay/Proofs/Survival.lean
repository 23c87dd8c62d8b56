/-
Every fetch survives its endpoint.

Whatever an endpoint answers, or if its transport breaks down, a fetch with
the way of tracing settled returns one result for each block of the range, in
order (`fetch_survives`): every block has its result (`fetchBlock_ends_any`),
and the trace of a batch takes none away (`fetch_of_blocks`).
-/
import AssertionReplay.Proofs.Endpoint
import AssertionReplay.Proofs.TraceAdditions
import AssertionReplay.Proofs.Transaction

namespace AssertionReplay

open Text

namespace Fetcher

variable {o : Outside} {f : Fetcher}

theorem processed_add_failed (r : Fetched) : r.blocksProcessed + r.blocksFailed = r.blocks.length := by
  rw [Fetched.blocksProcessed, Fetched.blocksFailed, List.length_eq_countP_add_countP (·.ok)]
  simp

/-- **Surviving an endpoint.** Whatever the endpoint answers, a fetch with the way of tracing settled
returns one result for each block, in order, and counts each as processed or failed. -/
theorem fetch_survives {client : Client} {target : Json} {size conc : Int} {detect fallback bar : Bool}
    {capability? : Option Capability}
    (hf : create client target (.int size) (.int conc) detect fallback capability? bar = .ok f)
    {cap : Capability} (hc : f.chosen? = some cap) {a b : Int} (h0 : 0 ≤ a) (hab : a ≤ b) :
    f.Returns o a b fun r =>
      r.blocks.map (·.block) = (List.range (b - a + 1).toNat).map (fun i : Nat => a + i) ∧
        (r.blocksProcessed + r.blocksFailed : Int) = b - a + 1 := by
  refine (fetch_of_blocks (R := fun n r => n = r.block) hc (sized_of_create hf) h0 hab
    (fun _ _ _ _ h h' => h.trans h'.block.symm) fun n _ _ => fetchBlock_ends_any n).imp fun r h => ?_
  obtain ⟨hblocks, -⟩ := h
  rw [← List.forall₂_map_right_iff (R := Eq), List.forall₂_eq_eq_eq, blocksBetween_eq,
    show b + 1 - a = b - a + 1 by omega] at hblocks
  have hlength := congrArg List.length hblocks
  simp only [List.length_map, List.length_range] at hlength
  have hcount := processed_add_failed r
  exact ⟨hblocks.symm, by omega⟩

/-- A fetcher that looks for direct calls only. -/
def directFetcher : Fetcher where
  client := Sample.client
  target := Sample.address
  batchSize := .int 1
  concurrency := .int 1
  receiptFallback := false
  showProgress := false
  chosen? := some .directCallsOnly

theorem directFetcher_created :
    create Sample.client (.str Sample.address) (.int 1) (.int 1) false false none false = .ok directFetcher :=
  create_eq_ok_iff.mpr ⟨by decide, by decide, Sample.parse_address, rfl⟩

/-- An endpoint whose transport breaks down at every request. -/
def brokenEndpoint : Outside := { Client.answering (fun _ => none) with reply := fun _ _ => .raised .mistyped }

theorem fetch_survives_brokenEndpoint :
    (create Sample.client (.str Sample.address) (.int 1) (.int 1) false false none false = .ok directFetcher ∧
      directFetcher.chosen? = some .directCallsOnly ∧ (0 : Int) ≤ 0 ∧ (0 : Int) ≤ 2) ∧
    Act.Ensures brokenEndpoint (directFetcher.fetch (.int 0) (.int 2)) fun r =>
      r.blocks.map (·.block) = [0, 1, 2] ∧ (r.blocksProcessed + r.blocksFailed : Int) = 3 :=
  ⟨⟨directFetcher_created, rfl, by decide, by decide⟩,
    (fetch_survives directFetcher_created rfl (Int.le_refl 0) (by decide : (0 : Int) ≤ 2)).ensures rfl⟩

/-! ## A direct call -/

/-- A transaction that calls the target. -/
def directTransaction : Json := .obj [("hash", .str "0x01"), ("to", .str Sample.address)]

theorem same_address : Address.same (.str Sample.address) (.str Sample.address) = .ok true :=
  (Address.same_of_textual (.inr ⟨_, rfl⟩)).trans (congrArg Except.ok Sample.names_address)

theorem directCalls_directTransaction (n : Int) :
    ∃ r, directCalls Sample.address n [] [directTransaction] = .ok [(r.hash, r)] := by
  obtain ⟨r, hr⟩ : ∃ r, Record.ofTransaction directTransaction (some (.int n)) = .ok r := by
    refine ⟨⟨lower "0x01", Address.zero, Sample.address, .int 0, [], .int n, .int 0, .int 0, .int 0, .int 0,
      .int 0⟩, ?_⟩
    rw [directTransaction, Record.ofTransaction_eq_ok_iff]
    exact ⟨⟨"0x01", rfl, rfl⟩, ⟨_, rfl, rfl⟩, ⟨_, Sample.parse_address, rfl⟩,
      rfl, rfl, rfl, rfl, rfl, rfl, rfl, rfl⟩
  refine ⟨r, ?_⟩
  rw [directCalls, show Field.member directTransaction "to" = .ok (.str Sample.address) from rfl]
  simp only [bind, Except.bind, same_address, if_true, hr]
  rfl

end Fetcher
end AssertionReplay
