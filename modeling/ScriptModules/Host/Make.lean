import ScriptModules.Host.Blueprint
import ScriptModules.World.Run

/-!
# Making values

A blueprint becomes a value from the inside to the outside and from left to right, so everything
that a value holds is in the world before the value is.
-/

namespace ScriptModules

/-- The container of a number; numbers beyond the last start again from the first. -/
def World.numbered? (w : World) (i : Nat) : Option (Ref .container) :=
  w.host.containers[i % w.host.containers.size]?

/-- The value saved under a name. -/
def World.saved (w : World) (name : String) : Value := (w.host.saved.get? name).getD .undefined

/-- The world with a value saved under a name. -/
def World.save (w : World) (name : String) (v : Value) : World :=
  { w with host := { w.host with saved := w.host.saved.insert name v } }

/-- The world with a container that has the next number. -/
def World.number (w : World) (c : Ref .container) : World :=
  { w with host := { w.host with containers := w.host.containers.push c } }

/-- Make a container and give it the next number. -/
def Run.newNumbered {ε : Type} : Run ε Nat := do
  let c ← newContainer (.pending [])
  changeGet fun w => (w.host.containers.size, w.number c)

mutual

/-- **Make the value** that a blueprint describes. -/
def Blueprint.make {ε : Type} : Blueprint → Run ε Value
  | .undefined => return .undefined
  | .null => return .null
  | .boolean b => return .boolean b
  | .number x => return .number x
  | .text s => return .text s
  | .list items => do
    let vs ← Blueprint.makeAll items
    return .list (← Run.newList vs.toArray)
  | .object properties => do
    let ps ← Blueprint.makeFields properties
    return .object (← Run.newObject { properties := .ofList ps })
  | .function name fails none => do
    return .function (← Run.newFunction (.host ⟨name, fails, none⟩))
  | .function name fails (some returns) => do
    let v ← returns.make
    return .function (← Run.newFunction (.host ⟨name, fails, some v⟩))
  | .pending => do return .container (← Run.newContainer (.pending []))
  | .resolved result => do
    let v ← result.make
    return .container (← Run.newContainer (.resolved v))
  | .saved name => Run.read (·.saved name)
  | .numbered i => Run.read fun w => ((w.numbered? i).map Value.container).getD .undefined

/-- Make the values that blueprints describe, in order. -/
def Blueprint.makeAll {ε : Type} : List Blueprint → Run ε (List Value)
  | [] => return []
  | b :: rest => do
    let v ← b.make
    return v :: (← Blueprint.makeAll rest)

/-- Make the properties that blueprints describe, in order. -/
def Blueprint.makeFields {ε : Type} : List (String × Blueprint) → Run ε (List (String × Value))
  | [] => return []
  | (key, b) :: rest => do
    let v ← b.make
    return (key, v) :: (← Blueprint.makeFields rest)

end

/-- Make what a name is bound to. -/
def NamedBlueprint.make {ε : Type} (b : NamedBlueprint) : Run ε Binding := do
  let v ← b.value.make
  if b.isLazy then return .lazy (← Run.newCell (.host b.name v))
  else return .value v

/-- Add bindings made from blueprints to others, in order. -/
def Bindings.extendMade {ε : Type} (into : Bindings) : List NamedBlueprint → Run ε Bindings
  | [] => return into
  | b :: rest => do
    let e ← b.make
    Bindings.extendMade { into with entries := into.entries.insert b.name e } rest

/-- **Make the bindings** that blueprints describe. -/
def Bindings.make {ε : Type} (bs : List NamedBlueprint) : Run ε Bindings := Bindings.extendMade {} bs

end ScriptModules
