import ScriptModules.Collection.Table

/-!
# Values

A script value is a constant or the identity of something shared: a list, an object, a function or
a container. Two values that mention the same thing see each other's changes, and are equal in the
strict sense exactly because they mention the same thing.
-/

namespace ScriptModules

/-- A value of a script. -/
inductive Value where
  | undefined
  | null
  | boolean (b : Bool)
  | number (x : Float)
  | text (s : String)
  | list (l : Ref .list)
  | object (o : Ref .object)
  | function (f : Ref .function)
  | container (c : Ref .container)

instance : Inhabited Value := ⟨.undefined⟩

namespace Value

/-- Whether the value is undefined or null. -/
def isNullish : Value → Bool
  | undefined | null => true
  | _ => false

/-- Whether the value counts as true in a condition. -/
def isTruthy : Value → Bool
  | undefined | null => false
  | boolean b => b
  | number x => !(x == 0.0 || x.isNaN)
  | text s => !s.isEmpty
  | _ => true

/-- The word for the kind of a value. -/
def typeOf : Value → String
  | undefined => "undefined"
  | null => "object"
  | boolean _ => "boolean"
  | number _ => "number"
  | text _ => "string"
  | function _ => "function"
  | list _ | object _ | container _ => "object"

/-- **Strict equality.** Constants of one kind are compared, numbers as numbers, and shared things
by identity. -/
def strictEquals : Value → Value → Bool
  | undefined, undefined => true
  | null, null => true
  | boolean a, boolean b => a == b
  | number a, number b => a == b
  | text a, text b => a == b
  | list a, list b => a == b
  | object a, object b => a == b
  | function a, function b => a == b
  | container a, container b => a == b
  | _, _ => false

/-- The text of a text value. -/
def asText? : Value → Option String
  | text s => some s
  | _ => none

end Value

end ScriptModules
