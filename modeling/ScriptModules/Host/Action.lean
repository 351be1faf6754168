import ScriptModules.Host.Blueprint
import ScriptModules.Json.Basic
import ScriptModules.Value.Picture

/-!
# Host code as data

What the host does when one of its listeners or tasks runs is a finite list of actions on numbered
containers and on one execution context; listeners and tasks that it registers on the way carry
their own lists. So runs of the host range over finite trees, and the laws of containers and
queues can speak of all of them.
-/

namespace ScriptModules

mutual

/-- One thing that the host does. -/
inductive Action where
  /-- Make a container and number it. -/
  | newContainer
  /-- Complete a container with a value. -/
  | complete (i : Nat) (v : Blueprint)
  /-- Complete a container through its completion callback. -/
  | callback (i : Nat) (v : Blueprint)
  /-- Let the completion of the second container complete the first. -/
  | chain (i j : Nat)
  /-- Listen to a container. -/
  | listen (i : Nat) (r : Routine)
  /-- Ask for the result. -/
  | result (i : Nat)
  | isCompleted (i : Nat)
  /-- Ask whether two numbers name one container. -/
  | same (i j : Nat)
  /-- Ask for the end of the chain of results. -/
  | adapt (i : Nat)
  /-- Schedule a task on the host's own context. -/
  | schedule (r : Routine)
  /-- Schedule a task through a handle, which does not keep the context alive. -/
  | scheduleByHandle (r : Routine)
  /-- Ask how many tasks wait. -/
  | pending
  | isRunning
  /-- Drop the waiting tasks. -/
  | clear
  /-- Ask whether the handle leads to the host's own context. -/
  | upgrade
  /-- Let go of the context. -/
  | drop

/-- What a listener or a task of the host does: announce itself by its tag, act, and then succeed
or fail. -/
inductive Routine where
  | mk (tag : Json) (actions : List Action) (fails : Option HostError)

end

instance : Inhabited Action := ⟨.newContainer⟩

instance : Inhabited Routine := ⟨.mk .null [] none⟩

/-- What an action answers. -/
inductive Answer where
  /-- It was done. -/
  | done
  | failed (e : HostError)
  | count (n : Nat)
  | truth (b : Bool)
  | value (p : Picture)
  /-- There is no such value. -/
  | none
  /-- There is nothing to answer. -/
  | silent
  /-- The host has no context any more. -/
  | noContext

end ScriptModules
