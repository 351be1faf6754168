/-!
# Tables of shared things

Things with an identity (lists, objects, functions, scopes, …) live in tables, one per kind, and
are named by their row. A value that mentions such a thing holds the row only, so two values
mention the same thing exactly when their rows are equal, and a change of the row is seen through
every mention.

The main statements are the three laws of reading: after a new row, after a change of the row
read, and after a change of another row.
-/

namespace ScriptModules

/-- The kinds of things that have an identity. -/
inductive Kind where
  | list | object | function | scope | heap | flag | cell | container | gathering | context
  | environment
deriving DecidableEq, Repr

/-- The identity of a thing of kind `k`: its row in the table of that kind. -/
structure Ref (k : Kind) where
  row : Nat
deriving DecidableEq, Repr

/-- The things of kind `k` that exist, in order of their creation. -/
structure Table (k : Kind) (α : Type) where
  rows : Array α := #[]

namespace Table

variable {k : Kind} {α : Type}

/-- The number of things that exist. -/
def size (t : Table k α) : Nat := t.rows.size

/-- The thing called `i`, if it exists. -/
def get? (t : Table k α) (i : Ref k) : Option α := t.rows[i.row]?

/-- The identity that the next thing will have. -/
def fresh (t : Table k α) : Ref k := ⟨t.rows.size⟩

/-- The table with one more thing, called `t.fresh`. -/
def add (t : Table k α) (a : α) : Table k α := ⟨t.rows.push a⟩

/-- The table with the thing called `i` replaced by its image under `f`. -/
def update (t : Table k α) (i : Ref k) (f : α → α) : Table k α := ⟨t.rows.modify i.row f⟩

/-- The table with the thing called `i` replaced by `a`. -/
def set (t : Table k α) (i : Ref k) (a : α) : Table k α := t.update i fun _ => a

@[simp] theorem get?_add_fresh (t : Table k α) (a : α) : (t.add a).get? t.fresh = some a := by
  simp [get?, add, fresh]

/-- Nothing is called yet what the next thing will be called. -/
theorem get?_fresh (t : Table k α) : t.get? t.fresh = none := Array.getElem?_eq_none (Nat.le_refl _)

theorem get?_add (t : Table k α) (a : α) (i : Ref k) :
    (t.add a).get? i = if i = t.fresh then some a else t.get? i := by
  obtain ⟨i⟩ := i
  simp only [get?, add, fresh, Ref.mk.injEq]
  rw [Array.getElem?_push]

theorem get?_add_of_get?_eq_some {t : Table k α} {i : Ref k} {b : α} (a : α)
    (h : t.get? i = some b) : (t.add a).get? i = some b := by
  simp only [get?, add] at h ⊢
  have hlt : i.row < t.rows.size := by
    rcases Nat.lt_or_ge i.row t.rows.size with hl | hl
    · exact hl
    · simp [Array.getElem?_eq_none hl] at h
  rw [Array.getElem?_push_lt hlt]
  simpa [Array.getElem?_eq_getElem hlt] using h

/-- **A change is seen in its own row only.** -/
theorem get?_update (t : Table k α) (i j : Ref k) (f : α → α) :
    (t.update i f).get? j = if i = j then (t.get? j).map f else t.get? j := by
  obtain ⟨i⟩ := i
  obtain ⟨j⟩ := j
  simp only [get?, update, Ref.mk.injEq]
  rw [Array.getElem?_modify]

theorem exists_of_lt_size {t : Table k α} {i : Ref k} (h : i.row < t.size) :
    ∃ a, t.get? i = some a :=
  ⟨_, Array.getElem?_eq_getElem h⟩

@[simp] theorem size_add (t : Table k α) (a : α) : (t.add a).size = t.size + 1 := by
  simp [size, add]

@[simp] theorem size_update (t : Table k α) (i : Ref k) (f : α → α) :
    (t.update i f).size = t.size := by
  simp [size, update]

end Table

end ScriptModules
