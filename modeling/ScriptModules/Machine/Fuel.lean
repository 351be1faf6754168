import ScriptModules.Machine.Routine
import ScriptModules.Machine.Timer
import ScriptModules.Module.Run

/-!
# The machine of a given fuel

Each activity of a machine hands the others to the machine below it, so fuel counts how deep calls,
listeners and tasks nest in one another. A run that ends without exhausting its fuel ends in the
same way with more; only one that never ends exhausts all.
-/

namespace ScriptModules

/-- Call anything that can be called. -/
def Callable.invoke (m : Machine) (f : Callable) (this : Value) (arguments : Array Value) :
    Script Value :=
  match f with
  | .closure c => c.invoke m.call this arguments
  | .listMethod method l => method.invoke m.call l arguments
  | .textMethod method s => method.invoke s arguments
  | .console method script => method.invoke script arguments
  | .timer t context => Run.raising f (t.invoke m context arguments)
  | .use site => Run.raising f (site.invoke m arguments)
  | .host h => Run.raising f (h.invoke this arguments)

/-- Whether this is a method of a list that calls back. -/
def Callable.revisits : Callable → Bool
  | .listMethod .map _ | .listMethod .forEach _ => true
  | _ => false

/-- Call a function of the world. -/
def Machine.invoke (m : Machine) (f : Ref .function) (this : Value) (arguments : Array Value) :
    Script Value := do
  match ← Run.read (·.functions.get? f) with
  | none => return .undefined
  | some f =>
    Run.mark (.call (.entered f.revisits))
    Run.andAlways (f.invoke m this arguments) (·.mark (.call .left))

/-- Tell a listener a result. -/
def Machine.tell (m : Machine) (l : Listener) (v : Value) : Hosted Unit :=
  match l with
  | .complete c => m.complete c v
  | .gather g slot => m.gather g slot v
  | .deliver tag fails => do
    Run.log (.delivered tag (← Run.pictureOf v))
    Routine.finish fails
  | .routine r => r.hear m v

/-- Carry out a task. -/
def Machine.runTask (m : Machine) (t : Task) : Hosted Unit :=
  match t with
  | .module e context source globals arguments then_ =>
    m.evaluateModule e context source globals arguments then_
  | .useCallback callback this script c => m.runUseCallback callback this script c
  | .timer t callback arguments => t.fire m callback arguments
  | .routine r => r.work m

mutual

/-- Call a function with the given fuel. -/
def Machine.callWith : Nat → CallSemantics
  | 0, _, _, _ => Run.exhausted
  | n + 1, f, this, arguments =>
    Machine.invoke ⟨callWith n, notifyWith n, drainWith n⟩ f this arguments

/-- Tell a listener with the given fuel. -/
def Machine.notifyWith : Nat → Listener → Value → Hosted Unit
  | 0, _, _ => Run.exhausted
  | n + 1, l, v => Machine.tell ⟨callWith n, notifyWith n, drainWith n⟩ l v

/-- Drain a queue with the given fuel. -/
def Machine.drainWith : Nat → Ref .context → Hosted Unit
  | 0, _ => Run.exhausted
  | n + 1, c =>
    Run.drainBy (Machine.runTask ⟨callWith n, notifyWith n, drainWith n⟩) (drainWith n) c

end

/-- **The machine of a given fuel.** -/
def Machine.ofFuel (n : Nat) : Machine :=
  ⟨Machine.callWith n, Machine.notifyWith n, Machine.drainWith n⟩

namespace Machine

/-! ### Equations -/

theorem ofFuel_call_zero (f : Ref .function) (this : Value) (arguments : Array Value) :
    (ofFuel 0).call f this arguments = Run.exhausted := rfl

theorem ofFuel_call_succ (n : Nat) (f : Ref .function) (this : Value) (arguments : Array Value) :
    (ofFuel (n + 1)).call f this arguments = (ofFuel n).invoke f this arguments := rfl

theorem ofFuel_notify_succ (n : Nat) (l : Listener) (v : Value) :
    (ofFuel (n + 1)).notify l v = (ofFuel n).tell l v := rfl

theorem ofFuel_drain_succ (n : Nat) (c : Ref .context) :
    (ofFuel (n + 1)).drain c = Run.drainBy (ofFuel n).runTask (ofFuel n).drain c := rfl

end Machine

end ScriptModules
