/-
The search of a call tree is exact.

It tells whether a node within the tree names the address (`reaches_tells`), and
nothing depends on the order: a search that takes up the nodes that are left in
any order at all (`Search`) ends, and with the same answer (`search_exact`).
-/
import AssertionReplay.Fetch.Block
import AssertionReplay.Proofs.CallTree

namespace AssertionReplay.CallTree

open Text

/-- A search that takes up the nodes that are left in any order: it finds the address at a node that names it, and
leaves the inner calls in place of a node that does not. -/
inductive Search (address : Text) : List Json → Bool → Prop
  | exhausted : Search address [] false
  | found {node : Json} {pending : List Json} : node ∈ pending → Names address node → Search address pending true
  | inward {node : Json} {pending others : List Json} {answer : Bool} : pending.Perm (node :: others) →
      ¬Names address node → Search address (children node ++ others) answer → Search address pending answer

variable {address : Text} {root node : Json} {members : List (Text × Json)} {pending : List Json}

/-! ## What is no object -/

/-- What is no object is a tree without nodes. -/
theorem wellTyped_of_not_object (h : Fetcher.isObject root = false) : WellTyped root := by
  intro members hwithin
  rcases within_iff.mp hwithin with rfl | ⟨child, hchild, -⟩
  · cases h
  · cases root with
    | obj _ => cases h
    | _ => cases hchild

/-- Inner calls that are no objects hide none of the others, and nothing is found in them. -/
theorem anyReach_filter (target : Json) (nodes : List Json) :
    anyReach target (nodes.filter Fetcher.isObject) = anyReach target nodes := by
  induction nodes with
  | nil => rfl
  | cons node rest ih =>
    cases node with
    | obj members => rw [List.filter_cons_of_pos rfl, anyReach, anyReach, ih]
    | _ => exact ih

/-! ## Searches in any order -/

theorem sizeOf_append (xs ys : List Json) : sizeOf (xs ++ ys) + 1 = sizeOf xs + sizeOf ys := by
  induction xs with
  | nil => rw [List.nil_append, List.nil.sizeOf_spec, Nat.add_comm]
  | cons x xs ih =>
    simp only [List.cons_append, List.cons.sizeOf_spec]
    omega

theorem exists_named_iff : (∃ node, Within root node ∧ Names address node) ↔
    Names address root ∨ ∃ child ∈ children root, ∃ node, Within child node ∧ Names address node := by
  have hwithin : ∀ node, Within root node ↔ node = root ∨ ∃ child ∈ children root, Within child node := fun _ =>
    within_iff
  simp only [hwithin, or_and_right, exists_or, exists_eq_left]
  refine or_congr_right ⟨?_, ?_⟩
  · rintro ⟨node, ⟨child, hchild, hwithin⟩, hnames⟩
    exact ⟨child, hchild, node, hwithin, hnames⟩
  · rintro ⟨child, hchild, node, hwithin, hnames⟩
    exact ⟨node, ⟨child, hchild, hwithin⟩, hnames⟩

/-- A search that ends tells whether a node within those that were left names the address. -/
theorem Search.answer_iff {answer : Bool} (h : Search address pending answer) :
    answer = true ↔ ∃ root ∈ pending, ∃ node, Within root node ∧ Names address node := by
  induction h with
  | exhausted => simp
  | found hmem hnames => simpa using ⟨_, hmem, _, .root, hnames⟩
  | inward hperm hnames _ ih =>
    have hpending : ∀ p : Json → Prop, (∃ root ∈ _, p root) ↔ ∃ root ∈ _, p root := fun p =>
      exists_congr fun root => and_congr_left fun _ => hperm.mem_iff
    rw [ih, hpending, List.exists_mem_cons_iff, exists_named_iff, or_iff_right hnames]
    simp only [List.mem_append, or_and_right, exists_or]

/-- Whatever nodes are left, a search of them ends. -/
theorem exists_search (address : Text) : ∀ pending : List Json, ∃ answer, Search address pending answer
  | [] => ⟨false, .exhausted⟩
  | node :: others => by
    by_cases hnames : Names address node
    · exact ⟨true, .found List.mem_cons_self hnames⟩
    · obtain ⟨answer, hsearch⟩ := exists_search address (children node ++ others)
      exact ⟨answer, .inward (List.Perm.refl _) hnames hsearch⟩
termination_by pending => sizeOf pending
decreasing_by
  have := sizeOf_append (children node) others
  have := sizeOf_children node
  simp only [List.cons.sizeOf_spec]
  omega

/-- **The search of a call tree is exact** at every depth, for an address that is not empty and a tree whose objects
are well typed. It answers, and says yes exactly if some object within the tree has the address as its recipient,
up to letter case. A search that takes up the nodes in any other order gives the same answer. The inner calls of an
object that are no objects themselves could as well be left out. -/
theorem search_exact (haddress : address.isEmpty = false) (h : WellTyped root) :
    (∃ answer, reaches (.str address) root = .ok answer ∧
      (answer = true ↔ ∃ members t, Within root (.obj members) ∧ Json.memberOrNull members "to" = .str t ∧
        lower t = lower address)) ∧
    (∀ answer, Search address [root] answer ↔ reaches (.str address) root = .ok answer) ∧
    (∀ members kept, Within root (.obj members) → Json.memberOrNull kept "to" = Json.memberOrNull members "to" →
      Json.memberOrNull kept "calls" = .arr ((children (.obj members)).filter Fetcher.isObject) →
      reaches (.str address) (.obj kept) = reaches (.str address) (.obj members)) := by
  obtain ⟨found, hfound, hiff⟩ := reaches_tells haddress h
  have hsame : ∀ {answer}, Search address [root] answer → answer = found := fun hsearch => by
    rw [Bool.eq_iff_iff, hiff, hsearch.answer_iff]
    simp only [List.mem_singleton, exists_eq_left]
  refine ⟨⟨found, hfound, hiff.trans ⟨?_, ?_⟩⟩, fun answer => ⟨fun hsearch => ?_, fun hanswer => ?_⟩, ?_⟩
  · rintro ⟨_, hwithin, members, t, rfl, hnames⟩
    exact ⟨members, t, hwithin, hnames⟩
  · rintro ⟨members, t, hwithin, hnames⟩
    exact ⟨_, hwithin, members, t, rfl, hnames⟩
  · rw [hfound, hsame hsearch]
  · obtain ⟨answer', hsearch⟩ := exists_search address [root]
    rw [hfound, ← hsame hsearch] at hanswer
    exact Except.ok.inj hanswer ▸ hsearch
  · intro members kept hwithin hto hcalls
    have hkept : innerReach (.str address) kept = anyReach (.str address) (children (.obj members)) := by
      rw [innerReach_eq_callsReach, hcalls, callsReach, anyReach_filter]
    rw [reaches, reaches, hto, hkept, innerReach_of_inner (h members hwithin)]

/-- A call of an address, in capitals. -/
def innerCall : Json := .obj [("to", .str "0xAB")]

/-- A call that lists a text, which is no node, and the inner call. -/
def outerCall : Json := .obj [("to", .str "0xB0"), ("calls", .arr [.str "0xab", innerCall])]

/-- A creation that lists two values that are no nodes, and the outer call. -/
def creation : Json := .obj [("calls", .arr [.int 7, .null, outerCall])]

/-- The address is found two levels below the creation, though values that are no nodes are listed on the way. -/
theorem search_exact_creation :
    (Text.ofString "0xab").isEmpty = false ∧ WellTyped creation ∧
    reaches (.str "0xab") creation = .ok true ∧ Search "0xab" [creation] true := by
  have hinner : WellTyped innerCall := wellTyped_leaf (.inr ⟨_, rfl⟩) rfl
  have houter : WellTyped outerCall := by
    refine wellTyped_obj_iff.mpr ⟨⟨.inr ⟨_, rfl⟩, .inr ⟨_, rfl⟩⟩, ?_⟩
    change ∀ child ∈ [.str "0xab", innerCall], WellTyped child
    rw [List.forall_mem_cons, List.forall_mem_singleton]
    exact ⟨wellTyped_of_not_object rfl, hinner⟩
  have htyped : WellTyped creation := by
    refine wellTyped_obj_iff.mpr ⟨⟨.inl rfl, .inr ⟨_, rfl⟩⟩, ?_⟩
    change ∀ child ∈ [.int 7, .null, outerCall], WellTyped child
    rw [List.forall_mem_cons, List.forall_mem_cons, List.forall_mem_singleton]
    exact ⟨wellTyped_of_not_object rfl, wellTyped_of_not_object rfl, houter⟩
  have haddress : (Text.ofString "0xab").isEmpty = false := rfl
  obtain ⟨⟨answer, hanswer, hiff⟩, hsearch, -⟩ := search_exact haddress htyped
  have hlisted : Within creation outerCall := Within.root.child (.tail _ (.tail _ (.head _)))
  have hdeepest : Within creation innerCall := hlisted.child (.tail _ (.head _))
  rw [hiff.mpr ⟨_, _, hdeepest, rfl, by decide⟩] at hanswer
  exact ⟨haddress, htyped, hanswer, (hsearch true).mpr hanswer⟩

end AssertionReplay.CallTree
