import ScriptModules.Machine.Basic

/-!
# Timers

The two timers put a callback at the end of the queue of the script that they were made for. There
is no clock: a delay is ignored. The callback sees no `this`, and a fault in it carries the name of
the timer.
-/

namespace ScriptModules

namespace Timer

/-- The number of leading arguments that do not reach the callback. -/
def ownArguments : Timer → Nat
  | immediate => 1
  | timeout => 2

/-- **Call a timer:** schedule its first argument, which must be a function. -/
def invoke (m : Machine) (t : Timer) (context : Ref .context) (arguments : Array Value) :
    Script Value :=
  match arguments[0]? with
  | some (Value.function f) => do
    let task := Task.timer t f (arguments.extract t.ownArguments arguments.size)
    Run.mapError ScriptError.host (m.scheduleByHandle context task)
    return .undefined
  | _ => Run.fail (.wrongType (t.name ++ " requires a function argument"))

/-- Run the callback of a timer. -/
def fire (m : Machine) (t : Timer) (callback : Ref .function) (arguments : Array Value) :
    Hosted Unit := do
  let _ ← m.callFor t.name callback .undefined arguments
  return ()

end Timer

end ScriptModules
