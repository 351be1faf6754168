import ScriptModules.Eval.Member

/-!
# Exports

A module may hand out its result by writing to the object `exports`, or by putting another value in
the place of `module.exports`. Both objects are watched, and either kind of write raises one flag.
-/

namespace ScriptModules

/-- The two objects of one evaluation of a module, and the flag that says whether the module wrote
to them. -/
structure Exports where
  /-- The object `module`. -/
  holder : Ref .object
  /-- The object that `module.exports` was at first. -/
  initial : Ref .object
  modified : Ref .flag

namespace Exports

/-- The property of the holder that has the exported value. -/
def key : String := "exports"

/-- The objects of a new evaluation, which count as not written to. -/
def fresh {ε : Type} : Run ε Exports := do
  let flag ← Run.newFlag
  let initial ← Run.newObject { watch := some ⟨none, flag⟩ }
  let holder ← Run.newObject
    { properties := .ofList [(key, .object initial)], watch := some ⟨some key, flag⟩ }
  return ⟨holder, initial, flag⟩

/-- The value that `module.exports` has now. -/
def current (w : World) (x : Exports) : Value :=
  ((w.object x.holder).properties.get? key).getD .undefined

/-- Whether the module wrote to its exports. -/
def isModified (w : World) (x : Exports) : Bool := (w.flags.get? x.modified).getD false

/-- **The result of a module:** the value of its text; if that is nullish and the module wrote to
its exports, what it exports. -/
def result (w : World) (x : Exports) (v : Value) : Value :=
  if v.isNullish && x.isModified w then x.current w else v

end Exports

end ScriptModules
