import ScriptModules.World.Run

/-!
# Lazy bindings

A lazy binding asks its supplier when it is first read and keeps the answer. Copies of the binding
share the cell, so the supplier is asked at most once whatever is copied and read.
-/

namespace ScriptModules

namespace Run

variable {ε : Type}

/-- Ask a supplier. -/
def supply : Supplier → Run ε Value
  | .timer t c => do return .function (← newFunction (.timer t c))
  | .host name v => do
    log (.realized name)
    return v

/-- The value of a lazy cell, asking its supplier if it has none yet. -/
def realize (c : Ref .cell) : Run ε Value := fun w =>
  match w.cells.get? c with
  | none => (.done .undefined, w)
  | some ⟨_, some v⟩ => (.done v, w)
  | some ⟨s, none⟩ =>
    (do
      let v ← supply s
      change fun w => { w with cells := w.cells.update c fun cell => { cell with value := some v } }
      return v : Run ε Value) w

end Run

/-- The value of a binding. -/
def Binding.realize {ε : Type} : Binding → Run ε Value
  | .value v => return v
  | .lazy c => Run.realize c

/-- Whether the value of a binding is known. -/
def Binding.isRealized (w : World) : Binding → Bool
  | .value _ => true
  | .lazy c =>
    match w.cells.get? c with
    | some cell => cell.value.isSome
    | none => false

namespace Bindings

variable {ε : Type}

/-- The value that a name is bound to. -/
def get? (b : Bindings) (name : String) : Run ε (Option Value) :=
  match b.entries.get? name with
  | none => return none
  | some e => do return some (← e.realize)

/-- The text that a name is bound to. -/
def getText? (b : Bindings) (name : String) : Run ε (Option String) := do
  return (← b.get? name).bind Value.asText?

/-- The values of entries, in order. -/
def realizeAll : List (String × Binding) → Run ε (List (String × Value))
  | [] => return []
  | (name, e) :: rest => do
    let v ← e.realize
    return (name, v) :: (← realizeAll rest)

/-- An object with the value of every binding. -/
def toObject (b : Bindings) : Run ε Value := do
  let properties ← realizeAll b.entries.entries
  return .object (← Run.newObject { properties := .ofList properties })

end Bindings

end ScriptModules
