import ScriptModules.Collection.OrderedMap
import ScriptModules.Value.Basic

/-!
# Bindings

The names that the host hands to one evaluation, in order, and the heap that the evaluation is to
allocate its scopes on, if the host names one. A binding is a value or a lazy cell; copies of a
lazy binding share its cell.
-/

namespace ScriptModules

/-- What a name is bound to. -/
inductive Binding where
  | value (v : Value)
  | lazy (cell : Ref .cell)

/-- Names bound by the host. -/
structure Bindings where
  entries : OrderedMap Binding := .empty
  heap : Option (Ref .heap) := none

namespace Bindings

/-- Bind a name to a value. -/
def put (b : Bindings) (name : String) (v : Value) : Bindings :=
  { b with entries := b.entries.insert name (.value v) }

/-- Bind a name to a lazy cell. -/
def putLazy (b : Bindings) (name : String) (cell : Ref .cell) : Bindings :=
  { b with entries := b.entries.insert name (.lazy cell) }

/-- Remove a name; the others keep their order. -/
def erase (b : Bindings) (name : String) : Bindings := { b with entries := b.entries.erase name }

/-- Take over every entry of `other`, which wins; the heap stays. -/
def extend (b other : Bindings) : Bindings := { b with entries := b.entries.extend other.entries }

/-- Name the heap to allocate on. -/
def onHeap (b : Bindings) (h : Ref .heap) : Bindings := { b with heap := some h }

/-- The names in order. -/
def names (b : Bindings) : List String := b.entries.keys

end Bindings

end ScriptModules
