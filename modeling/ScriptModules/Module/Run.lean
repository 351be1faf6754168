import ScriptModules.Eval.Builtin
import ScriptModules.Module.Engine
import ScriptModules.Module.Exports
import ScriptModules.Module.Use

/-!
# Running a module

A module is evaluated on the heap of its context, against the names that it inherits, those that
the providers of its environment add, and its own: `module`, `exports`, `console` and `use`, each
group hiding the ones before it. Its result goes to a listener, at once or, if the result is a
container, when that is completed.
-/

namespace ScriptModules

/-- The bindings that a provider adds for a context. -/
def Provider.provide {ε : Type} (context : Ref .context) : Provider → Run ε Bindings
  | .timing => do
    let immediate ← Run.newCell (.timer .immediate context)
    let timeout ← Run.newCell (.timer .timeout context)
    let b : Bindings := {}
    return (b.putLazy Timer.immediate.name immediate).putLazy Timer.timeout.name timeout
  | .host b => do
    Run.log .provided
    return b

/-- Bindings with those that providers add, in order. -/
def Bindings.extendProvided {ε : Type} (context : Ref .context) (b : Bindings) :
    List Provider → Run ε Bindings
  | [] => return b
  | p :: rest => do
    let more ← p.provide context
    extendProvided context (b.extend more) rest

/-- The methods of a console that writes in the name of a script. -/
def newConsoleMethods {ε : Type} (script : String) :
    List ConsoleMethod → Run ε (List (String × Value))
  | [] => return []
  | m :: rest => do
    let f ← Run.newFunction (.console m script)
    return (m.name, .function f) :: (← newConsoleMethods script rest)

/-- The console of a script. -/
def newConsole {ε : Type} (script : String) : Run ε Value := do
  let methods ← newConsoleMethods script consoleMethods
  return .object (← Run.newObject { properties := .ofList methods })

namespace Environment

variable {ε : Type}

/-- The bindings that a module is evaluated against. -/
def moduleBindings (r : Ref .environment) (e : Environment) (context : Ref .context)
    (source : ModuleSource) (globals arguments : Bindings) (x : Exports) : Run ε Bindings := do
  let globals := source.bindingsFrom globals
  let b ← globals.extendProvided context e.providers
  let console ← newConsole source.name
  let this ← arguments.toObject
  let use ← Run.newFunction (.use ⟨r, context, globals, this⟩)
  let heap ← Run.read (·.contextHeap context)
  return ((((b.put "module" (.object x.holder)).put Exports.key (.object x.initial)).put
    "console" console).put "use" (.function use)).onHeap heap

end Environment

/-- The world after the module failed whose result a listener was to receive. -/
def World.forsake (w : World) : Listener → World
  | .gather g slot => w.mark (.gathering g (.failed slot))
  | _ => w

/-- The result of a module. -/
def Environment.moduleValue (m : Machine) (r : Ref .environment) (e : Environment)
    (context : Ref .context) (source : ModuleSource) (globals arguments : Bindings) :
    Hosted Value := do
  let x ← Exports.fresh
  let b ← e.moduleBindings r context source globals arguments x
  let v ← Run.inName source.name (e.engine.evaluate m.call source.name source.content b)
  Run.read fun w => x.result w v

/-- Hand the result of a module to a listener, or its fault to whoever runs it. -/
def Machine.handOn (m : Machine) (then_ : Listener) : Except HostError Value → Hosted Unit
  | .ok (.container c) => m.listen c then_
  | .ok v => m.notify then_ v
  | .error e => do
    Run.change (·.forsake then_)
    Run.fail e

/-- **Run a module** and hand its result to a listener. -/
def Machine.evaluateModule (m : Machine) (r : Ref .environment) (context : Ref .context)
    (source : ModuleSource) (globals arguments : Bindings) (then_ : Listener) : Hosted Unit := do
  match ← Run.read (·.environment? r) with
  | none => m.handOn then_ (.error (.lifecycleMisuse .environmentGone))
  | some e =>
    m.handOn then_ (← Run.attempt (e.moduleValue m r context source globals arguments))

/-- Run a module; the container is completed with its result. -/
def Machine.moduleResult (m : Machine) (r : Ref .environment) (context : Ref .context)
    (source : ModuleSource) (globals arguments : Bindings) : Hosted (Ref .container) := do
  let c ← Run.newContainer (.pending [])
  m.runModule r context source globals arguments (.complete c)
  return c

end ScriptModules
