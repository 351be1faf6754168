/-!
# Pictures of values

The finite tree that one sees when one looks into a value. What is met again inside itself is cut
off and leaves only its kind; what is merely shared is seen twice.
-/

namespace ScriptModules

/-- Kinds of things that can hold themselves. -/
inductive CycleKind where
  | list | object | container
deriving DecidableEq, Repr

/-- What one sees of a value at one moment. -/
inductive Picture where
  | undefined
  | null
  | boolean (b : Bool)
  | number (x : Float)
  | text (s : String)
  | list (items : List Picture)
  | object (properties : List (String × Picture))
  /-- A function written in a script. -/
  | closure (name : String) (params : List String) (isArrow : Bool)
  /-- A function of the host. -/
  | native (name : String)
  /-- A container without a result, and the number of its listeners. -/
  | pending (listeners : Nat)
  | resolved (result : Picture)
  /-- Something that is being looked into already. -/
  | cycle (kind : CycleKind)

mutual

/-- Whether something holds itself in the picture. -/
def Picture.hasCycle : Picture → Bool
  | .cycle _ => true
  | .list items => Picture.anyCycle items
  | .object properties => Picture.anyFieldCycle properties
  | .resolved result => result.hasCycle
  | _ => false

/-- Whether one of the pictures has a cycle. -/
def Picture.anyCycle : List Picture → Bool
  | [] => false
  | p :: rest => p.hasCycle || Picture.anyCycle rest

/-- Whether one of the properties has a cycle. -/
def Picture.anyFieldCycle : List (String × Picture) → Bool
  | [] => false
  | (_, p) :: rest => p.hasCycle || Picture.anyFieldCycle rest

end

end ScriptModules
