import ScriptModules.World.Cell

/-!
# Scopes and heaps

A name means its nearest declaration along the chain of scopes, and failing that what the host
bound it to. Assigning to a name without a declaration makes a variable in the root scope, which
hides the host's binding and leaves it alone.

A heap tracks the scopes made on it. Releasing it empties them all: they then hold no variable, no
binding and no `this`. The heap also counts how deep script calls are nested on it, up to a limit.
-/

namespace ScriptModules

/-- A root scope on a heap, without declarations yet. -/
def Scope.root (globals : Bindings) (h : Ref .heap) : Scope :=
  { parent := none, this := some .undefined, globals := some globals, heap := h }

/-- A scope after its heap was released. -/
def Scope.emptied (s : Scope) : Scope :=
  { s with locals := .empty, this := none, globals := none }

namespace World

/-- The scopes from `s` to its root, nearest first. A parent is made before its children, so the
number of `s` bounds the length. -/
def chainFrom (w : World) : Nat → Ref .scope → List (Ref .scope × Scope)
  | 0, _ => []
  | fuel + 1, s =>
    match w.scopes.get? s with
    | none => []
    | some scope =>
      (s, scope) ::
        match scope.parent with
        | none => []
        | some p => chainFrom w fuel p

/-- The scopes from `s` to its root, nearest first. -/
def scopeChain (w : World) (s : Ref .scope) : List (Ref .scope × Scope) :=
  w.chainFrom (s.row + 1) s

/-- The nearest declaration of a name seen from `s`, and the scope it is in. -/
def declaration? (w : World) (s : Ref .scope) (name : String) : Option (Ref .scope × Variable) :=
  (w.scopeChain s).findSome? fun (r, scope) => (scope.locals.get? name).map fun v => (r, v)

/-- What the host bound below the root of `s`. -/
def globalsOf (w : World) (s : Ref .scope) : Option Bindings :=
  (w.scopeChain s).getLast?.bind fun e => e.2.globals

/-- The root scope of `s`. -/
def rootOf (w : World) (s : Ref .scope) : Ref .scope :=
  match (w.scopeChain s).getLast? with
  | some e => e.1
  | none => s

/-- What `this` means in `s`: the nearest that a scope has. -/
def thisOf (w : World) (s : Ref .scope) : Value :=
  ((w.scopeChain s).findSome? fun e => e.2.this).getD .undefined

/-- The heap of a scope. -/
def heapOf (w : World) (s : Ref .scope) : Ref .heap :=
  match w.scopes.get? s with
  | some scope => scope.heap
  | none => ⟨0⟩

/-- The world with a variable stored in a scope. -/
def setVariable (w : World) (s : Ref .scope) (name : String) (v : Variable) : World :=
  { w with scopes := w.scopes.update s fun x => { x with locals := x.locals.insert name v } }

/-- How deep calls are nested on a heap. -/
def depth (w : World) (h : Ref .heap) : Nat := ((w.heaps.get? h).getD {}).depth

/-- The deepest that calls were ever nested on a heap. -/
def peak (w : World) (h : Ref .heap) : Nat := ((w.heaps.get? h).getD {}).peak

/-- The world with the depth of a heap changed. -/
def setDepth (w : World) (h : Ref .heap) (n : Nat) : World :=
  { w with heaps := w.heaps.update h fun x => { x with depth := n, peak := max x.peak n } }

theorem depth_setDepth {w : World} {h : Ref .heap} (hr : h.row < w.heaps.size) (n : Nat)
    (x : Ref .heap) : (w.setDepth h n).depth x = if x = h then n else w.depth x := by
  obtain ⟨y, hy⟩ := Table.exists_of_lt_size hr
  rw [depth, setDepth, Table.get?_update]
  by_cases hx : h = x
  · subst hx
    rw [if_pos rfl, if_pos rfl, hy]
    rfl
  · rw [if_neg hx, if_neg (Ne.symm hx)]
    rfl

/-- The world with one call less on a heap. -/
def leaveCall (w : World) (h : Ref .heap) : World := w.setDepth h (w.depth h - 1)

/-- The world with a scope emptied. -/
def emptyScope (w : World) (s : Ref .scope) : World :=
  { w with scopes := w.scopes.update s Scope.emptied }

/-- **Release a heap:** empty every scope made on it since it was last released. -/
def release (w : World) (h : Ref .heap) : World :=
  let w' := ((w.heaps.get? h).getD {}).scopes.foldl emptyScope w
  { w' with heaps := w'.heaps.update h fun x => { x with scopes := [] } }

end World

/-- Script calls nest at most this deep on one heap. -/
def callLimit : Nat := 64

namespace Run

variable {ε : Type}

/-- The root scope of an evaluation on a heap. -/
def newRootScope (globals : Bindings) (h : Ref .heap) : Run ε (Ref .scope) :=
  newScope (.root globals h)

/-- A scope inside another; without a `this` of its own it has that of the outer one. -/
def newInnerScope (parent : Ref .scope) (this : Option Value) : Run ε (Ref .scope) := do
  let h ← read (·.heapOf parent)
  newScope { parent := some parent, this := this, globals := none, heap := h }

/-- Declare a name in a scope, over any declaration that is there. -/
def declare (s : Ref .scope) (name : String) (v : Value) (constant : Bool) : Run ε Unit :=
  change fun w => w.setVariable s name ⟨v, constant⟩

/-- The value of a name seen from a scope. -/
def tryLookup (s : Ref .scope) (name : String) : Run ε (Option Value) := fun w =>
  match w.declaration? s name with
  | some (_, v) => (.done (some v.value), w)
  | none =>
    match w.globalsOf s with
    | some b => b.get? name w
    | none => (.done none, w)

/-- The value of a name seen from a scope, which must have one. -/
def lookup (s : Ref .scope) (name : String) : Script Value := do
  match ← tryLookup s name with
  | some v => return v
  | none => fail (.reference (name ++ " is not defined"))

/-- **Assign to the nearest declaration of a name,** or make a variable in the root scope. -/
def assign (s : Ref .scope) (name : String) (v : Value) : Script Unit := fun w =>
  match w.declaration? s name with
  | some (r, x) =>
    if x.constant then (.failed (.wrongType "Assignment to constant variable"), w)
    else (.done (), w.setVariable r name ⟨v, false⟩)
  | none => (.done (), w.setVariable (w.rootOf s) name ⟨v, false⟩)

/-- Count one more call on a heap, up to the limit. -/
def enterCall (h : Ref .heap) : Script Unit := fun w =>
  if callLimit ≤ w.depth h then
    (.failed (.thrown "RangeError: Maximum call stack size exceeded"), w)
  else (.done (), w.setDepth h (w.depth h + 1))

/-- Run `x` as a call on a heap: it counts for as long as it runs. -/
def nested {α : Type} (h : Ref .heap) (x : Script α) : Script α := do
  enterCall h
  andAlways x (·.leaveCall h)

end Run

end ScriptModules
