import ScriptModules.Host.Make
import ScriptModules.Machine.Basic

/-!
# Running the host's code

The actions of the host on its numbered containers and on its context, and the routines that are
made of them. A routine carries out all of its actions, whatever they answer, and then fails or
succeeds as it says.
-/

namespace ScriptModules

/-- The script name under which the host asks for the end of a chain of results. -/
def hostScript : String := "container.js"

namespace Answer

/-- The answer of something that succeeds without a value or fails. -/
def ofResult : Except HostError Unit → Answer
  | .ok () => .done
  | .error e => .failed e

/-- The answer of something that yields a value or fails. -/
def ofValue (w : World) : Except HostError Value → Answer
  | .ok v => .value (v.picture w)
  | .error e => .failed e

end Answer

/-- The world in which the host no longer holds its context. -/
def World.dropContext (w : World) (c : Ref .context) : World :=
  { w.letGo c with host := { w.host with context := none } }

namespace Run

/-- Answer whether `x` succeeded. -/
def answering (x : Hosted Unit) : Hosted Answer := do
  mark (.call .acting)
  let result ← attempt x
  mark (.call (.answered result))
  return .ofResult result

/-- Answer from the context that the host holds; without one there is nothing to answer. -/
def onContext (f : Ref .context → Hosted Answer) : Hosted Answer := do
  match ← read (·.host.context) with
  | some c => f c
  | none => return .silent

/-- Answer from the context that the host has a handle of. -/
def onHandle (f : Ref .context → Hosted Answer) : Hosted Answer := do
  match ← read (·.host.handle) with
  | some c => f c
  | none => return .silent

/-- Answer from the container of a number; a host without containers gets no answer. -/
def onNumbered (i : Nat) (f : Ref .container → Hosted Answer) : Hosted Answer := do
  match ← read (·.numbered? i) with
  | some c => f c
  | none => return .silent

/-- The host lets go of its context. -/
def dropContext (c : Ref .context) : Hosted Answer := do
  change (·.dropContext c)
  return .silent

/-- Drop the tasks that wait on a context, and answer how many they were. -/
def clearTasks (c : Ref .context) : Hosted Answer := do
  let n ← read (·.pendingTasks c)
  change (·.clearQueue c)
  return .count n

/-- Answer whether the handle's context is the one that the host holds, if it is alive. -/
def upgradeHandle (c : Ref .context) : Hosted Answer :=
  read fun w => if w.isAlive c then .truth (w.host.context == some c) else .silent

end Run

/-- **Carry out an action.** -/
def Action.perform (m : Machine) : Action → Hosted Answer
  | .newContainer => do return .count (← Run.newNumbered)
  | .complete i v | .callback i v => do
    let v ← v.make
    Run.onNumbered i fun c => Run.answering (m.complete c v)
  | .chain i j =>
    Run.onNumbered i fun target => Run.onNumbered j fun source =>
      Run.answering (m.listen source (.complete target))
  | .listen i r => Run.onNumbered i fun c => Run.answering (m.listen c (.routine r))
  | .result i => Run.onNumbered i fun c => Run.read fun w =>
    match w.result? c with
    | some v => .value (v.picture w)
    | none => .none
  | .isCompleted i => Run.onNumbered i fun c => Run.read fun w => .truth (w.result? c).isSome
  | .same i j => Run.read fun w => .truth (w.numbered? i == w.numbered? j)
  | .adapt i => Run.onNumbered i fun c => do
    let r ← Run.attempt (Run.unwrap hostScript (.container c))
    Run.read fun w => .ofValue w r
  | .schedule r => do
    match ← Run.read (·.host.context) with
    | some c => Run.answering (m.schedule c (.routine r))
    | none => return .noContext
  | .scheduleByHandle r => Run.onHandle fun c => Run.answering (m.scheduleByHandle c (.routine r))
  | .pending => Run.onContext fun c => Run.read fun w => .count (w.pendingTasks c)
  | .isRunning => Run.onContext fun c => Run.read fun w => .truth (w.isRunning c)
  | .clear => Run.onContext Run.clearTasks
  | .upgrade => Run.onHandle Run.upgradeHandle
  | .drop => Run.onContext Run.dropContext

namespace Routine

variable (m : Machine)

/-- Carry out actions in order and log what each answered under a tag. -/
def performAll (tag : Json) : List Action → Hosted Unit
  | [] => return ()
  | a :: rest => do
    let answer ← a.perform m
    Run.log (.did tag answer)
    performAll tag rest

/-- Fail with the error, if there is one. -/
def finish : Option HostError → Hosted Unit
  | some e => do
    Run.mark (.call (.supplied e))
    Run.fail e
  | none => return ()

/-- **Run a routine as a listener** that hears a result. -/
def hear (v : Value) : Routine → Hosted Unit
  | .mk tag actions fails => do
    Run.log (.heard tag (← Run.pictureOf v))
    performAll m tag actions
    finish fails

/-- **Run a routine as a task.** -/
def work : Routine → Hosted Unit
  | .mk tag actions fails => do
    Run.log (.started tag)
    performAll m tag actions
    Run.log (.ended tag)
    finish fails

end Routine

/-- The host starts to hold a new context, and gets a handle of it. -/
def Run.holdNewContext {ε : Type} : Run ε (Ref .context) := do
  let c ← newContext 1
  change fun w => { w with host := { w.host with context := some c, handle := some c } }
  return c

end ScriptModules
