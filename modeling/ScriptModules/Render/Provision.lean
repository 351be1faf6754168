import ScriptModules.Machine.Basic
import ScriptModules.Module.Engine
import ScriptModules.Module.Run
import ScriptModules.Render.Configuration

/-!
# Providing modules to templates

A template asks for the value of a module by an identifier. Each request runs in an environment of
its own that ends with it. The value is the end of the chain of containers behind the module's
result; it must be there when the queue is empty.
-/

namespace ScriptModules

/-- What a request comes to. -/
inductive Provision where
  | provided (v : Value)
  /-- The identifier names no script. -/
  | declined
  | failed (e : HostError)

/-- Who answers the requests of templates. -/
structure ModuleProvider where
  configuration : Configuration := {}
  engines : OrderedMap Engine := Engine.registry
  repository : Repository

namespace ModuleProvider

/-- The resolver of the requests. -/
def resolver (p : ModuleProvider) : Resolver := ⟨p.repository, p.configuration.scriptExtension⟩

/-- Run a module in an environment and yield its final value. -/
def runIn (m : Machine) (p : ModuleProvider) (g : Guard) (identifier : String)
    (globals arguments : Bindings) : Hosted Value := do
  let start ← p.resolver.lookupContext globals
  let source ← p.resolver.find start identifier
  let c ← m.moduleResult g.environment g.context source globals arguments
  Run.unwrap identifier (.container c)

/-- Run a module in a new environment, which ends however the run does. -/
def run (m : Machine) (p : ModuleProvider) (engine : Engine) (identifier : String)
    (globals arguments : Bindings) : Hosted Value := do
  let e ← Run.newEnvironment { engine := engine, resolver := p.resolver, providers := [.timing] }
  let g ← Guard.enter e
  let r ← Run.attempt (p.runIn m g identifier globals arguments)
  g.leave
  Run.change (·.abandon e)
  Run.ofExcept r

/-- **Answer a request** for a module, under the names that the render provides and with arguments
that the module sees as `this`. -/
def provide (m : Machine) (p : ModuleProvider) (identifier : String) (globals arguments : Bindings) :
    Hosted Provision := do
  if ¬ p.configuration.isScript identifier then return .declined
  match p.engines.get? p.configuration.engineName with
  | none => return .failed (.engineUnavailable p.configuration.engineName)
  | some engine =>
    match ← Run.attempt (p.run m engine identifier globals arguments) with
    | .ok v => return .provided v
    | .error e => return .failed e

end ModuleProvider

end ScriptModules
