/-
What is within a call tree, and what the search of it tells.

The nodes within a tree are its root and what the nodes within it list as inner
calls (`Within`); a tree is well typed if the objects among them are. The search
of a call tree stops at the first call of the target. Over a well-typed tree it
tells whether the target is among the recipients of all of its nodes, at any
depth (`CallTree.reaches_eq`), which is whether a node within the tree names the
target (`CallTree.reaches_tells`).
-/
import AssertionReplay.CallTree
import AssertionReplay.Proofs.Letters

namespace AssertionReplay.CallTree

open Text

/-- What a node lists as inner calls, objects or not. -/
def children : Json → List Json
  | .obj members =>
    match Json.memberOrNull members "calls" with
    | .arr nodes => nodes
    | _ => []
  | _ => []

/-- The root, and what the nodes within the tree list as inner calls. -/
inductive Within (root : Json) : Json → Prop
  | root : Within root root
  | child {node child : Json} : Within root node → child ∈ children node → Within root child

/-- The node is an object, and its recipient is the address up to letter case. -/
def Names (address : Text) (node : Json) : Prop :=
  ∃ members t, node = .obj members ∧ Json.memberOrNull members "to" = .str t ∧ lower t = lower address

/-- The recipient of a node is a text or not given, and its inner calls are a list or not given. -/
structure WellTypedNode (members : List (Text × Json)) : Prop where
  recipient : Address.Textual (Json.memberOrNull members "to")
  inner : Json.memberOrNull members "calls" = .null ∨ ∃ nodes, Json.memberOrNull members "calls" = .arr nodes

/-- Every object in the tree is a well-typed node; what else is listed among them may be anything. -/
def WellTyped (root : Json) : Prop := ∀ members, Within root (.obj members) → WellTypedNode members

mutual

/-- What the node calls, and what the nodes below it call. -/
def recipients : Json → List Json
  | .obj members => Json.memberOrNull members "to" :: innerRecipients members
  | _ => []

def innerRecipients : List (Text × Json) → List Json
  | [] => []
  | (name, v) :: rest => if name == "calls" then callsRecipients v else innerRecipients rest

def callsRecipients : Json → List Json
  | .arr nodes => allRecipients nodes
  | _ => []

def allRecipients : List Json → List Json
  | [] => []
  | node :: rest => recipients node ++ allRecipients rest

end

variable {address : Text} {root node : Json} {members : List (Text × Json)} {nodes : List Json}

/-! ## Nodes within a tree -/

theorem sizeOf_lookup {name : Text} {v : Json} (h : members.lookup name = some v) : sizeOf v < sizeOf members := by
  induction members with
  | nil => cases h
  | cons member rest ih =>
    obtain ⟨key, value⟩ := member
    rw [List.lookup_cons] at h
    split at h
    · cases h
      simp only [List.cons.sizeOf_spec, Prod.mk.sizeOf_spec]
      omega
    · have := ih h
      simp only [List.cons.sizeOf_spec]
      omega

theorem sizeOf_children (node : Json) : sizeOf (children node) ≤ sizeOf node := by
  cases node with
  | obj members =>
    rw [children, Json.memberOrNull]
    cases hlookup : members.lookup (Text.ofString "calls") with
    | none => simp
    | some v =>
      have := sizeOf_lookup hlookup
      cases v with
      | arr nodes =>
        simp only [Json.arr.sizeOf_spec] at this
        simp only [Option.getD_some, Json.obj.sizeOf_spec]
        omega
      | _ => simp
  | _ => simp [children]

theorem induction_on_children {p : Json → Prop} (h : ∀ node, (∀ child ∈ children node, p child) → p node)
    (node : Json) : p node :=
  h node fun child _ => induction_on_children h child
termination_by sizeOf node
decreasing_by exact (List.sizeOf_lt_of_mem ‹_›).trans_le (sizeOf_children node)

theorem children_of_arr (h : Json.memberOrNull members "calls" = .arr nodes) : children (.obj members) = nodes := by
  rw [children, h]

theorem Within.trans {child : Json} (h : Within root node) (h' : Within node child) : Within root child := by
  induction h' with
  | root => exact h
  | child _ hmem ih => exact ih.child hmem

/-- What is within a tree is its root, or within one of the inner calls that the root lists. -/
theorem within_iff : Within root node ↔ node = root ∨ ∃ child ∈ children root, Within child node := by
  constructor
  · intro h
    induction h with
    | root => exact .inl rfl
    | child _ hmem ih =>
      rcases ih with rfl | ⟨child, hchild, hwithin⟩
      · exact .inr ⟨_, hmem, .root⟩
      · exact .inr ⟨child, hchild, hwithin.child hmem⟩
  · rintro (rfl | ⟨child, hchild, hwithin⟩)
    · exact .root
    · exact (Within.root.child hchild).trans hwithin

theorem WellTyped.child (h : WellTyped root) {child : Json} (hchild : child ∈ children root) : WellTyped child :=
  fun members hwithin => h members ((Within.root.child hchild).trans hwithin)

theorem wellTyped_obj_iff : WellTyped (.obj members) ↔
    WellTypedNode members ∧ ∀ child ∈ children (.obj members), WellTyped child := by
  refine ⟨fun h => ⟨h members .root, fun child => h.child⟩, fun ⟨hroot, hchildren⟩ members' hwithin => ?_⟩
  rcases within_iff.mp hwithin with hobj | ⟨child, hchild, hwithin⟩
  · cases hobj
    exact hroot
  · exact hchildren child hchild members' hwithin

/-- A node that lists no inner calls is a tree of its own. -/
theorem wellTyped_leaf (hto : Address.Textual (Json.memberOrNull members "to"))
    (hcalls : Json.memberOrNull members "calls" = .null) : WellTyped (.obj members) := by
  refine wellTyped_obj_iff.mpr ⟨⟨hto, .inl hcalls⟩, ?_⟩
  rw [children, hcalls]
  exact List.forall_mem_nil _

/-! ## Recipients -/

/-- The first of two members of one name counts. -/
theorem memberOrNull_cons (name key : Text) (v : Json) (rest : List (Text × Json)) :
    Json.memberOrNull ((key, v) :: rest) name = if key == name then v else Json.memberOrNull rest name := by
  rw [Json.memberOrNull, Json.memberOrNull, List.lookup_cons, BEq.comm]
  cases key == name <;> rfl

theorem innerRecipients_eq : innerRecipients members = callsRecipients (Json.memberOrNull members "calls") := by
  induction members with
  | nil => rfl
  | cons member rest ih => rw [innerRecipients, memberOrNull_cons, ih, apply_ite callsRecipients]

theorem allRecipients_eq : allRecipients nodes = nodes.flatMap recipients := by
  induction nodes with
  | nil => rfl
  | cons node rest ih => rw [allRecipients, ih, List.flatMap_cons]

theorem recipients_obj : recipients (.obj members) =
    Json.memberOrNull members "to" :: (children (.obj members)).flatMap recipients := by
  rw [recipients, innerRecipients_eq, children]
  cases Json.memberOrNull members "calls" with
  | arr nodes => rw [callsRecipients, allRecipients_eq]
  | _ => rfl

/-- **The recipients of a tree** are those of the nodes within it. -/
theorem mem_recipients {recipient : Json} : recipient ∈ recipients root ↔
    ∃ members, Within root (.obj members) ∧ Json.memberOrNull members "to" = recipient := by
  induction root using induction_on_children with
  | h root ih =>
    simp only [@within_iff root, or_and_right, exists_or]
    cases root with
    | obj members =>
      have hroot : (∃ members', Json.obj members' = .obj members ∧ Json.memberOrNull members' "to" = recipient) ↔
          recipient = Json.memberOrNull members "to" := by simp [eq_comm]
      rw [recipients_obj, List.mem_cons, hroot, List.mem_flatMap]
      refine or_congr_right ⟨?_, ?_⟩
      · rintro ⟨child, hchild, hmem⟩
        obtain ⟨members', hwithin, hto⟩ := (ih child hchild).mp hmem
        exact ⟨members', ⟨child, hchild, hwithin⟩, hto⟩
      · rintro ⟨members', ⟨child, hchild, hwithin⟩, hto⟩
        exact ⟨child, hchild, (ih child hchild).mpr ⟨members', hwithin, hto⟩⟩
    | _ => simp [recipients, children]

/-- What a well-typed tree calls can be compared with an address. -/
theorem textual_of_mem {recipient : Json} (h : WellTyped root) (hr : recipient ∈ recipients root) :
    Address.Textual recipient := by
  obtain ⟨members, hwithin, rfl⟩ := mem_recipients.mp hr
  exact (h members hwithin).recipient

/-! ## The search as it is made -/

theorem innerReach_eq_callsReach (target : Json) :
    innerReach target members = callsReach target (Json.memberOrNull members "calls") := by
  induction members with
  | nil => rfl
  | cons member rest ih => rw [innerReach, memberOrNull_cons, ih, apply_ite (callsReach target)]

theorem innerReach_of_inner {target : Json} (h : WellTypedNode members) :
    innerReach target members = anyReach target (children (.obj members)) := by
  rw [innerReach_eq_callsReach]
  rcases h.inner with hcalls | ⟨nodes, hcalls⟩
  · simp [children, hcalls, callsReach, anyReach]
  · rw [children_of_arr hcalls, hcalls, callsReach]

theorem anyReach_eq {target : Json} {answer : Json → Bool}
    (h : ∀ node ∈ nodes, reaches target node = .ok (answer node)) : anyReach target nodes = .ok (nodes.any answer) := by
  induction nodes with
  | nil => rfl
  | cons node rest ih =>
    rw [List.forall_mem_cons] at h
    rw [anyReach, h.1, ih h.2, List.any_cons]
    cases answer node <;> rfl

/-- **Searching a call tree.** The search succeeds, and finds the target exactly if the tree calls
it. -/
theorem reaches_eq (h : WellTyped root) :
    reaches (.str address) root = .ok ((recipients root).any (Address.names address)) := by
  induction root using induction_on_children with
  | h root ih =>
    cases root with
    | obj members =>
      have hnode := h members .root
      have hinner := anyReach_eq fun child hchild => ih child hchild (h.child hchild)
      rw [reaches, Address.same_of_textual hnode.recipient, innerReach_of_inner hnode, hinner, recipients_obj,
        List.any_cons, List.any_flatMap]
      cases Address.names address (Json.memberOrNull members "to") <;> rfl
    | _ => rfl

/-- A trace that counts as not given is searched as a node without anything, and calls nothing either way. -/
theorem reaches_orElse (root : Json) :
    reaches (.str address) (root.orElse (.obj [])) = reaches (.str address) root := by
  unfold Json.orElse
  split
  · rfl
  · cases root with
    | obj members =>
      cases members with
      | nil => rfl
      | cons => exact absurd rfl ‹_›
    | _ => rfl

theorem names_iff (haddress : address.isEmpty = false) {v : Json} :
    Address.names address v = true ↔ ∃ t, v = .str t ∧ lower t = lower address := by
  cases v with
  | str t =>
    have hgiven : lower t = lower address → t.isEmpty = false := fun h => by
      rw [← lower_isEmpty, h, lower_isEmpty, haddress]
    simpa [Address.names] using hgiven
  | _ => simp [Address.names]

/-- **The search of a call tree** tells whether a node within it names the address, at whatever depth. -/
theorem reaches_tells (haddress : address.isEmpty = false) (h : WellTyped root) :
    ∃ answer, reaches (.str address) root = .ok answer ∧
      (answer = true ↔ ∃ node, Within root node ∧ Names address node) := by
  refine ⟨_, reaches_eq h, ?_⟩
  simp only [List.any_eq_true, mem_recipients, names_iff haddress]
  constructor
  · rintro ⟨_, ⟨members, hwithin, rfl⟩, t, hto, hlower⟩
    exact ⟨_, hwithin, members, t, rfl, hto, hlower⟩
  · rintro ⟨_, hwithin, members, t, rfl, hto, hlower⟩
    exact ⟨_, ⟨members, hwithin, rfl⟩, t, hto, hlower⟩

end AssertionReplay.CallTree
