import ScriptModules.Loop.Queue

/-!
# Async containers

A container takes one result. Listeners that came before the result run when it comes, in the
order in which they came; one that comes later runs at once. Completing twice is an error and
changes nothing. A listener that fails does not keep the others from running, and the completion
then fails with the first error.
-/

namespace ScriptModules

namespace World

/-- The world with a container in another state. -/
def setContainer (w : World) (c : Ref .container) (x : Container) : World :=
  { w with containers := w.containers.set c x }

/-- The world with a listener put at the end of those that wait for a container. -/
def await (w : World) (c : Ref .container) (waiting : List Listener) (l : Listener) : World :=
  (w.setContainer c (.pending (waiting ++ [l]))).mark (.container c (.waited l))

/-- The world with the result of a container. -/
def resolve (w : World) (c : Ref .container) (v : Value) : World :=
  (w.setContainer c (.resolved v)).mark (.container c (.resolved v))

end World

namespace Run

variable (notify : Listener → Value → Hosted Unit)

/-- Tell the listeners of a container its result in order; what comes of it is their first error. -/
def notifyAll (c : Ref .container) (v : Value) : List Listener → Hosted (Except HostError Unit)
  | [] => return .ok ()
  | l :: rest => do
    mark (.container c (.told l v))
    let first ← attempt (notify l v)
    mark (.container c (.answered l first))
    let others ← notifyAll c v rest
    return firstError first others

/-- **Complete a container.** -/
def completeBy (c : Ref .container) (v : Value) : Hosted Unit := do
  match ← read (·.container c) with
  | .resolved _ => fail .alreadyCompleted
  | .pending listeners =>
    change (·.resolve c v)
    let result ← notifyAll notify c v listeners
    mark (.container c (.settled result))
    ofExcept result

/-- **Listen to a container.** -/
def addListener (c : Ref .container) (l : Listener) : Hosted Unit := do
  match ← read (·.container c) with
  | .pending listeners => change (·.await c listeners l)
  | .resolved v =>
    mark (.container c (.toldLate l v))
    let result ← attempt (notify l v)
    mark (.container c (.answeredLate l result))
    ofExcept result

section

variable {notify : Listener → Value → Hosted Unit} {c : Ref .container} {w : World}

/-- Completing twice is an error and changes nothing. -/
theorem completeBy_resolved {v : Value} (h : w.container c = .resolved v) (u : Value) :
    completeBy notify c u w = (.failed .alreadyCompleted, w) := by
  unfold completeBy
  rw [bind_of_done (read_apply _ _), h]
  rfl

theorem addListener_pending {ls : List Listener} (h : w.container c = .pending ls) (l : Listener) :
    addListener notify c l w = (.done (), w.await c ls l) := by
  unfold addListener
  rw [bind_of_done (read_apply _ _), h]
  rfl

/-- A listener that comes late is told at once. -/
theorem addListener_resolved {v : Value} (h : w.container c = .resolved v) (l : Listener) :
    addListener notify c l w = (do
      let result ← attempt (notify l v)
      mark (.container c (.answeredLate l result))
      ofExcept result : Hosted Unit) (w.mark (.container c (.toldLate l v))) := by
  unfold addListener
  rw [bind_of_done (read_apply _ _), h]
  rfl

end

/-- The end of the chain of results that begins with a value, entering at most `fuel` containers;
a container without a result has none. -/
def unwrapIn (script : String) : Nat → Value → Hosted Value
  | 0, .container _ => exhausted
  | fuel + 1, .container c => do
    match ← read (·.result? c) with
    | some v => unwrapIn script fuel v
    | none => fail (.unresolved script)
  | _, v => return v

/-- **The end of the chain of results** that begins with a value. -/
def unwrap (script : String) (v : Value) : Hosted Value := do
  unwrapIn script ((← read (·.containers.size)) + 1) v

end Run

end ScriptModules
