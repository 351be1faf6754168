import ScriptModules.Machine.Basic
import ScriptModules.Module.Environment
import ScriptModules.Module.Names

/-!
# Use

`use(callback)` calls the callback on the next turn of the queue. `use(dependency, callback)` and
`use([dependencies], callback)` run each dependency as a module of its own and call the callback
with their results in the order of the request, whatever the order in which they arrive. Each form
answers a new container that is completed with what the callback returns.

Every dependency is found before anything is scheduled, so a `use` that fails has no effect.
-/

namespace ScriptModules

/-- The first of the scripts bound to the names that is not empty and found. Names behind it are not
read. -/
def Resolver.callerIn {ε : Type} (r : Resolver) (b : Bindings) : List String → Run ε (Option String)
  | [] => return none
  | name :: rest => do
    match (← b.getText? name).bind r.pathOf with
    | some path => return some path
    | none => callerIn r b rest

/-- **Where a lookup starts from** in a script with the given bindings: at the script itself or, if
that is not in the repository, at the render script. -/
def Resolver.lookupContext {ε : Type} (r : Resolver) (b : Bindings) : Run ε LookupContext := do
  let caller ← r.callerIn b [ReservedName.scriptFilename, ReservedName.renderScript]
  let driverType ← b.getText? ReservedName.resourceType
  return ⟨caller, driverType⟩

/-- Find a module, with the notes of the lookup in the log. -/
def Resolver.find (r : Resolver) (context : LookupContext) (dependency : String) :
    Hosted ModuleSource := do
  Run.ofExcept (← Run.noted (r.resolve context dependency))

/-- Find modules in order, up to the first that is not found. -/
def Resolver.findAll (r : Resolver) (context : LookupContext) :
    List String → Hosted (List ModuleSource)
  | [] => return []
  | dependency :: rest => do
    let source ← r.find context dependency
    return source :: (← findAll r context rest)

/-- The bindings under which a module runs: those it inherits, with its own path. -/
def ModuleSource.bindingsFrom (source : ModuleSource) (globals : Bindings) : Bindings :=
  globals.put ReservedName.scriptFilename (.text source.name)

/-- Schedule a module on a context; its result goes to the listener. -/
def Machine.runModule (m : Machine) (e : Ref .environment) (c : Ref .context)
    (source : ModuleSource) (globals arguments : Bindings) (then_ : Listener) : Hosted Unit :=
  m.schedule c (.module e c source globals arguments then_)

namespace UseSite

variable (m : Machine) (site : UseSite)

/-- The module whose `use` this is. -/
def script : Hosted String := do
  return (← site.globals.getText? ReservedName.scriptFilename).getD ""

/-- The environment, if someone holds it. -/
def liveEnvironment : Hosted Environment := do
  match ← Run.read (·.keptEnvironment? site.environment) with
  | some e => return e
  | none => Run.fail (.lifecycleMisuse .environmentGone)

/-- The context, if it is alive. -/
def liveContext : Hosted (Ref .context) := do
  if ← Run.read (·.isAlive site.context) then return site.context
  else Run.fail (.lifecycleMisuse .noContext)

/-- Call the callback on the next turn. -/
def useCallback (callback : Ref .function) : Hosted (Ref .container) := do
  let result ← Run.newContainer (.pending [])
  let script ← site.script
  let context ← site.liveContext
  m.schedule context (.useCallback callback site.this script result)
  return result

/-- Schedule modules in order; the result of each goes to its slot of the gathering. -/
def runAll (context : Ref .context) (g : Ref .gathering) : Nat → List ModuleSource → Hosted Unit
  | _, [] => return ()
  | slot, source :: rest => do
    m.runModule site.environment context source (source.bindingsFrom site.globals) {} (.gather g slot)
    runAll context g (slot + 1) rest

/-- Run dependencies and gather their results for the callback. -/
def useModules (dependencies : List String) (callback : Ref .function) :
    Hosted (Ref .container) := do
  let environment ← site.liveEnvironment
  let context ← site.liveContext
  let start ← environment.resolver.lookupContext site.globals
  let sources ← environment.resolver.findAll start dependencies
  let script ← site.script
  let (g, result) ← Run.openGathering sources.length callback site.this script
  site.runAll m context g 0 sources
  return result

/-- The texts of the requested dependencies: the items of a list, or a single one. -/
def dependencyNames (v : Value) : Hosted (List String) := do
  match v with
  | .list l => textsOf (← Run.read (·.items l)).toList
  | v => return [← Run.textOf v]
where
  /-- The texts of values, in order. -/
  textsOf : List Value → Hosted (List String)
    | [] => return []
    | v :: rest => do
      let s ← Run.textOf v
      return s :: (← textsOf rest)

/-- A callback must be a function. -/
def callbackOf (v : Value) : Hosted (Ref .function) :=
  match v with
  | .function f => return f
  | _ => Run.fail (.invalidArguments "No callback argument supplied")

/-- **What a call of `use` does.** -/
def apply (arguments : Array Value) : Hosted (Ref .container) :=
  match arguments.toList with
  | [] => Run.fail (.invalidArguments "Not enough arguments for use")
  | [callback] => do site.useCallback m (← callbackOf callback)
  | dependencies :: callback :: _ => do
    let callback ← callbackOf callback
    match ← dependencyNames dependencies with
    | [] => site.useCallback m callback
    | names => site.useModules m names callback

/-- **Call `use` from a script.** -/
def invoke (arguments : Array Value) : Script Value := do
  return .container (← Run.mapError ScriptError.host (site.apply m arguments))

end UseSite

/-- Call the callback of a gathering with all results and complete the container with what it
returns. -/
def Machine.callGathered (m : Machine) (g : Ref .gathering) (x : Gathering) : Hosted Unit := do
  Run.mark (.gathering g (.called x.callback x.this x.slots))
  let r ← Run.attempt (m.callFor x.script x.callback x.this x.slots)
  Run.mark (.gathering g (.returned r))
  m.complete x.container (← Run.ofExcept r)

/-- Put a result into its slot; the last one calls the callback with all of them. -/
def Machine.gather (m : Machine) (g : Ref .gathering) (slot : Nat) (v : Value) : Hosted Unit := do
  Run.change (·.arrive g slot v)
  match ← Run.read (·.gatherings.get? g) with
  | some x => if x.remaining = 0 then m.callGathered g x
  | none => return ()

/-- Call the callback of a `use` without dependencies and complete its container. -/
def Machine.runUseCallback (m : Machine) (callback : Ref .function) (this : Value)
    (script : String) (c : Ref .container) : Hosted Unit := do
  let r ← m.callFor script callback this #[]
  m.complete c r

end ScriptModules
