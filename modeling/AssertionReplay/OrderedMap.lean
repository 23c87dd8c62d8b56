/-
Maps from names to values that keep the order in which names first came.

A name that comes again takes the new value at its old place. The lemmas say
what a lookup finds after an insertion, and what the names are.
-/
import AssertionReplay.Text.Basic

namespace AssertionReplay

abbrev OrderedMap (α : Type) := List (Text × α)

namespace OrderedMap

variable {α : Type}

/-- Gives the name a value: in place if it is there, else at the end. -/
def insert (m : OrderedMap α) (name : Text) (v : α) : OrderedMap α :=
  match m with
  | [] => [(name, v)]
  | (n, w) :: rest => if n == name then (n, v) :: rest else (n, w) :: insert rest name v

def get? (m : OrderedMap α) (name : Text) : Option α := m.lookup name

def contains (m : OrderedMap α) (name : Text) : Bool := (m.lookup name).isSome

def names (m : OrderedMap α) : List Text := m.map (·.1)

theorem lookup_insert_self (m : OrderedMap α) (name : Text) (v : α) :
    (insert m name v).lookup name = some v := by
  induction m with
  | nil => simp [insert]
  | cons p rest ih =>
    obtain ⟨n, w⟩ := p
    by_cases h : n = name
    · subst h; simp [insert]
    · have h' : (name == n) = false := by simpa using fun e => h e.symm
      simp [insert, h, List.lookup_cons, h', ih]

theorem lookup_insert_other (m : OrderedMap α) {name other : Text} (hne : other ≠ name)
    (v : α) :
    (insert m name v).lookup other = m.lookup other := by
  induction m with
  | nil =>
    have : (other == name) = false := by simpa using hne
    simp [insert, List.lookup_cons, this]
  | cons p rest ih =>
    obtain ⟨n, w⟩ := p
    by_cases h : n = name
    · subst h
      have : (other == n) = false := by simpa using hne
      simp [insert, List.lookup_cons, this]
    · by_cases ho : other = n
      · subst ho; simp [insert, h]
      · have : (other == n) = false := by simpa using ho
        simp [insert, h, List.lookup_cons, this, ih]

theorem names_insert (m : OrderedMap α) (name : Text) (v : α) :
    names (insert m name v) = if name ∈ names m then names m else names m ++ [name] := by
  induction m with
  | nil => simp [insert, names]
  | cons p rest ih =>
    obtain ⟨n, w⟩ := p
    by_cases h : n = name
    · subst h; simp [insert, names]
    · have h' : ¬ name = n := fun e => h e.symm
      simp only [names] at ih
      simp only [insert, beq_iff_eq, h, if_false, names, List.map_cons, ih, List.mem_cons, h',
        false_or]
      by_cases hm : name ∈ rest.map (·.1) <;> simp [hm]

theorem insert_new {m : OrderedMap α} {name : Text} (h : name ∉ m.map (·.1)) (v : α) :
    insert m name v = m ++ [(name, v)] := by
  induction m with
  | nil => rfl
  | cons p rest ih =>
    obtain ⟨n, w⟩ := p
    simp only [List.map_cons, List.mem_cons, not_or] at h
    have hne : (n == name) = false := by simpa using fun e => h.1 e.symm
    rw [insert, hne, if_neg (by simp), ih h.2, List.cons_append]

end OrderedMap
end AssertionReplay
