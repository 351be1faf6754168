/-!
# Ordered maps

A finite map from names to values that remembers the order in which its names first came in.
Writing to a name that is there keeps its place; a new name goes to the end; erasing closes the gap.

The main statements say what a write does to a later read (`get?_insert`) and to the order of
the names (`keys_insert_of_mem`, `keys_insert_of_not_mem`).
-/

namespace ScriptModules

/-- A map from names to `α` in order of first insertion. -/
structure OrderedMap (α : Type) where
  entries : List (String × α) := []

namespace OrderedMap

variable {α β : Type}

instance : Inhabited (OrderedMap α) := ⟨⟨[]⟩⟩

/-- The map with no entries. -/
def empty : OrderedMap α := ⟨[]⟩

/-- The value under the first entry called `name`. -/
def find? (name : String) : List (String × α) → Option α
  | [] => none
  | (n, a) :: rest => if n = name then some a else find? name rest

/-- Overwrite the first entry called `name`, or add one at the end. -/
def put (name : String) (a : α) : List (String × α) → List (String × α)
  | [] => [(name, a)]
  | (n, b) :: rest => if n = name then (n, a) :: rest else (n, b) :: put name a rest

/-- Drop the first entry called `name`. -/
def drop (name : String) : List (String × α) → List (String × α)
  | [] => []
  | (n, b) :: rest => if n = name then rest else (n, b) :: drop name rest

/-- The value stored under `name`. -/
def get? (m : OrderedMap α) (name : String) : Option α := find? name m.entries

/-- Whether `name` has an entry. -/
def contains (m : OrderedMap α) (name : String) : Bool := (m.get? name).isSome

/-- Store `a` under `name`; a name that is there keeps its place. -/
def insert (m : OrderedMap α) (name : String) (a : α) : OrderedMap α := ⟨put name a m.entries⟩

/-- Remove `name`; the entries behind it move up. -/
def erase (m : OrderedMap α) (name : String) : OrderedMap α := ⟨drop name m.entries⟩

/-- The names in order. -/
def keys (m : OrderedMap α) : List String := m.entries.map (·.1)

/-- The number of entries. -/
def size (m : OrderedMap α) : Nat := m.entries.length

/-- Whether there are no entries. -/
def isEmpty (m : OrderedMap α) : Bool := m.entries.isEmpty

/-- Store every entry of `other`, in its order; `other` wins. -/
def extend (m other : OrderedMap α) : OrderedMap α :=
  other.entries.foldl (fun m e => m.insert e.1 e.2) m

/-- The map that the entries of a list make when they are stored one after the other. -/
def ofList (entries : List (String × α)) : OrderedMap α :=
  entries.foldl (fun m e => m.insert e.1 e.2) empty

/-! ### Reading after writing -/

@[simp] theorem get?_empty (name : String) : (empty : OrderedMap α).get? name = none := rfl

theorem find?_put (name other : String) (a : α) (l : List (String × α)) :
    find? other (put name a l) = if name = other then some a else find? other l := by
  induction l with
  | nil => rfl
  | cons e rest ih =>
    by_cases h : e.1 = name <;> by_cases ho : name = other <;> by_cases he : e.1 = other <;>
      simp_all [put, find?]

/-- **A write is seen under its own name only.** -/
theorem get?_insert (m : OrderedMap α) (name other : String) (a : α) :
    (m.insert name a).get? other = if name = other then some a else m.get? other :=
  find?_put name other a m.entries

/-- Writing to a name that is there leaves the order of the names alone. -/
theorem keys_insert_of_mem {m : OrderedMap α} {name : String} (a : α) (h : name ∈ m.keys) :
    (m.insert name a).keys = m.keys := by
  obtain ⟨l⟩ := m
  simp only [keys, insert] at h ⊢
  induction l with
  | nil => simp at h
  | cons e rest ih =>
    by_cases he : e.1 = name
    · simp [put, he]
    · have hm : name ∈ rest.map (·.1) := by
        rcases List.mem_cons.mp h with hh | hh
        · exact absurd hh.symm he
        · exact hh
      simp [put, he, ih hm]

/-- A new name goes to the end. -/
theorem keys_insert_of_not_mem {m : OrderedMap α} {name : String} (a : α) (h : name ∉ m.keys) :
    (m.insert name a).keys = m.keys ++ [name] := by
  obtain ⟨l⟩ := m
  simp only [keys, insert] at h ⊢
  induction l with
  | nil => rfl
  | cons e rest ih =>
    simp only [List.map_cons, List.mem_cons, not_or] at h
    have he : ¬ e.1 = name := fun hh => h.1 hh.symm
    simp [put, he, ih h.2]

end OrderedMap

end ScriptModules
