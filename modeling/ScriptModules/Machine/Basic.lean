import ScriptModules.Eval.Expression
import ScriptModules.Loop.Container

/-!
# Machines

Calling a function, telling a listener and draining a queue run into one another: a call may
schedule a task, a task may complete a container, and a container may call back. A machine is a
choice of all three. Everything else that these activities do is written for an arbitrary machine,
and the recursion is tied once, in `Machine.ofFuel`.
-/

namespace ScriptModules

/-- How functions are called, listeners told, and queues drained. -/
structure Machine where
  call : CallSemantics
  notify : Listener → Value → Hosted Unit
  drain : Ref .context → Hosted Unit

namespace Machine

variable (m : Machine)

/-- Complete a container. -/
def complete (c : Ref .container) (v : Value) : Hosted Unit := Run.completeBy m.notify c v

/-- Listen to a container. -/
def listen (c : Ref .container) (l : Listener) : Hosted Unit := Run.addListener m.notify c l

/-- Schedule a task on a context. -/
def schedule (c : Ref .context) (t : Task) : Hosted Unit := Run.schedule m.drain c t

/-- Schedule a task through a handle of a context. -/
def scheduleByHandle (c : Ref .context) (t : Task) : Hosted Unit :=
  Run.scheduleByHandle m.drain c t

/-- Call a function for a script; a fault of the call is the script's. -/
def callFor (script : String) (f : Ref .function) (this : Value) (arguments : Array Value) :
    Hosted Value :=
  Run.inName script (m.call f this arguments)

end Machine

end ScriptModules
