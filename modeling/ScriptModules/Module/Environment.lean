import ScriptModules.Loop.Queue
import ScriptModules.World.Scope

/-!
# Environments

An environment runs modules on the context that it is active on. The first acquisition makes a new
context, later ones attach to it, and as many releases end the period. The end drops the waiting
tasks and releases the heap, so that what the scripts made no longer reaches their scopes.

A guard acquires the context when it is made and releases it when it is dropped; it also keeps the
environment and the context.
-/

namespace ScriptModules

namespace World

/-- An environment. -/
def environment? (w : World) (e : Ref .environment) : Option Environment := w.environments.get? e

/-- The period during which an environment is active, if it is. -/
def activity? (w : World) (e : Ref .environment) : Option Activity :=
  (w.environment? e).bind (·.active)

/-- The context that an environment is active on. -/
def currentContext? (w : World) (e : Ref .environment) : Option (Ref .context) :=
  (w.activity? e).map (·.context)

/-- The world with the activity of an environment changed. -/
def setActivity (w : World) (e : Ref .environment) (a : Option Activity) : World :=
  { w with environments := w.environments.update e fun x => { x with active := a } }

/-- An environment that someone holds. -/
def keptEnvironment? (w : World) (e : Ref .environment) : Option Environment :=
  (w.environment? e).filter fun x => 0 < x.holders

/-- The world with one more holder of an environment. -/
def keep (w : World) (e : Ref .environment) : World :=
  { w with environments := w.environments.update e fun x => { x with holders := x.holders + 1 } }

/-- The world with one holder of an environment less. -/
def abandon (w : World) (e : Ref .environment) : World :=
  { w with environments := w.environments.update e fun x => { x with holders := x.holders - 1 } }

/-- The heap of a context. -/
def contextHeap (w : World) (c : Ref .context) : Ref .heap :=
  match w.context? c with
  | some x => x.heap
  | none => ⟨0⟩

/-- The world at the end of a period on a context: no task waits, and the heap is released. -/
def endPeriod (w : World) (c : Ref .context) : World :=
  (w.clearQueue c).release (w.contextHeap c)

end World

namespace Environment

variable {ε : Type}

/-- **Acquire the context** of an environment, starting a new one if none is active. -/
def acquire (e : Ref .environment) : Run ε (Ref .context) := do
  match ← Run.read (·.activity? e) with
  | some a =>
    Run.change fun w => w.setActivity e (some { a with depth := a.depth + 1 })
    return a.context
  | none =>
    let c ← Run.newContext 0
    Run.change fun w => w.setActivity e (some ⟨c, 1⟩)
    return c

/-- **Release the context** of an environment once. -/
def release (e : Ref .environment) : Hosted Unit := do
  match ← Run.read (·.activity? e) with
  | none => Run.fail (.lifecycleMisuse .noContext)
  | some ⟨c, depth⟩ =>
    if 1 < depth then Run.change fun w => w.setActivity e (some ⟨c, depth - 1⟩)
    else Run.change fun w => (w.setActivity e none).endPeriod c

end Environment

/-- A guard of an environment and of the context that it acquired. -/
structure Guard where
  environment : Ref .environment
  context : Ref .context

namespace Guard

variable {ε : Type}

/-- Acquire the context of an environment by a guard. -/
def enter (e : Ref .environment) : Run ε Guard := do
  let c ← Environment.acquire e
  Run.change fun w => (w.keep e).hold c
  return ⟨e, c⟩

/-- Drop a guard: release the context once, whether or not it is still acquired. -/
def leave (g : Guard) : Run ε Unit := do
  let _ ← Run.attempt (Environment.release g.environment)
  Run.change fun w => (w.abandon g.environment).letGo g.context

end Guard

end ScriptModules
