import ScriptModules.Value.Error

/-!
# Blueprints of values

The host describes a value before it makes it. Making a blueprint creates the lists, objects,
functions and containers in it anew; it may also mention a value that the host has saved under a
name, or one of the containers that the host has numbered.
-/

namespace ScriptModules

/-- A description from which a value is made. -/
inductive Blueprint where
  | undefined
  | null
  | boolean (b : Bool)
  | number (x : Float)
  | text (s : String)
  | list (items : List Blueprint)
  | object (properties : List (String × Blueprint))
  /-- A function of the host: when called it fails with the error, or else returns the value, or
  else returns its first argument. -/
  | function (name : String) (fails : Option ScriptError) (returns : Option Blueprint)
  /-- A new container without a result. -/
  | pending
  /-- A new container with the result. -/
  | resolved (result : Blueprint)
  /-- The value saved under a name, undefined if there is none. -/
  | saved (name : String)
  /-- A numbered container; numbers beyond the last start again from the first. -/
  | numbered (i : Nat)

instance : Inhabited Blueprint := ⟨.undefined⟩

/-- A name that the host binds to the value made from a blueprint, at once or when it is first
read. -/
structure NamedBlueprint where
  name : String
  value : Blueprint
  isLazy : Bool := false

end ScriptModules
