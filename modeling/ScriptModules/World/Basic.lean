import ScriptModules.Collection.Table
import ScriptModules.Host.Action
import ScriptModules.Module.Resolve
import ScriptModules.Syntax.Tree
import ScriptModules.Value.Bindings

/-!
# The world

Everything that scripts and their host share and change: one table for each kind of thing with an
identity, the names under which the host keeps values, and the log of what could be observed.

A world also remembers its history: what happened to its queues, containers and gatherings, and how
calls nested. Nothing that runs reads it; the laws of whole runs speak of it.
-/

namespace ScriptModules

/-! ### Objects and functions -/

/-- Watches an object: the flag is raised when a property is written, or only when the one
property with the key is. -/
structure Watch where
  key : Option String
  flag : Ref .flag

/-- A script object: properties in order, and perhaps a watch on them. -/
structure Object where
  properties : OrderedMap Value := .empty
  watch : Option Watch := none

/-- A function written in a script, with the scope it was made in. -/
structure Closure where
  name : String
  params : List String
  body : Body
  isArrow : Bool
  scope : Ref .scope

/-- Members of a list that can be called. -/
inductive ListMethod where
  | push | join | map | forEach | indexOf
deriving DecidableEq, Repr

/-- Members of a text that can be called. -/
inductive TextMethod where
  | toUpperCase | toLowerCase | trim | indexOf
deriving DecidableEq, Repr

/-- How important a line of the console is. -/
inductive ConsoleLevel where
  | info | warn | error | debug | trace
deriving DecidableEq, Repr

/-- Members of the console. -/
structure ConsoleMethod where
  name : String
  level : ConsoleLevel

/-- The two functions that put a callback at the end of the queue. -/
inductive Timer where
  | immediate | timeout
deriving DecidableEq, Repr

/-- What a module's `use` remembers: where it runs, the names that its dependencies inherit, and
what its callbacks see as `this`. -/
structure UseSite where
  environment : Ref .environment
  context : Ref .context
  globals : Bindings
  this : Value

/-- A function that the host gave to scripts; every call of it is logged. It fails, or else
returns a value, or else returns its first argument. -/
structure HostFunction where
  name : String
  fails : Option ScriptError
  returns : Option Value

/-- Anything that can be called. -/
inductive Callable where
  | closure (c : Closure)
  | listMethod (m : ListMethod) (l : Ref .list)
  | textMethod (m : TextMethod) (s : String)
  | console (m : ConsoleMethod) (script : String)
  | timer (t : Timer) (context : Ref .context)
  | use (site : UseSite)
  | host (h : HostFunction)

/-! ### Scopes -/

/-- A declared name. -/
structure Variable where
  value : Value
  constant : Bool

/-- A scope. The root scope of an evaluation lies on the bindings that the host gave it. -/
structure Scope where
  locals : OrderedMap Variable := .empty
  parent : Option (Ref .scope)
  this : Option Value
  globals : Option Bindings
  heap : Ref .heap

/-- A heap: the scopes made on it since it was last released, and how deep calls are nested. -/
structure Heap where
  scopes : List (Ref .scope) := []
  depth : Nat := 0
  /-- The deepest that calls were ever nested. Nothing that runs reads it. -/
  peak : Nat := 0

/-- What a lazy binding yields when it is first read. -/
inductive Supplier where
  /-- A timer of a context. -/
  | timer (t : Timer) (context : Ref .context)
  /-- A value of the host's; that it was asked for is logged under the name. -/
  | host (name : String) (v : Value)

/-- A lazy binding: where its value comes from, and the value once it has been read. -/
structure Cell where
  supplier : Supplier
  value : Option Value := none

/-! ### Containers and queues -/

/-- What waits for the result of a container or a module. -/
inductive Listener where
  /-- Complete another container with the result. -/
  | complete (c : Ref .container)
  /-- Put the result into a slot of a gathering. -/
  | gather (g : Ref .gathering) (slot : Nat)
  /-- Tell the host, which may fail. -/
  | deliver (tag : Json) (fails : Option HostError)
  /-- Run code of the host. -/
  | routine (r : Routine)

/-- A one-shot future: listeners in order of registration, or a result. -/
inductive Container where
  | pending (listeners : List Listener)
  | resolved (result : Value)

/-- The results of several dependencies on their way to one callback. -/
structure Gathering where
  slots : Array Value
  remaining : Nat
  callback : Ref .function
  this : Value
  /-- The module whose `use` this is. -/
  script : String
  container : Ref .container

/-- Work for a queue. -/
inductive Task where
  /-- Run a module and hand its result on. -/
  | module (environment : Ref .environment) (context : Ref .context) (source : ModuleSource)
      (globals arguments : Bindings) (then_ : Listener)
  /-- Call a callback of `use` and complete a container with what it returns. -/
  | useCallback (callback : Ref .function) (this : Value) (script : String) (c : Ref .container)
  /-- Call the callback of a timer. -/
  | timer (t : Timer) (callback : Ref .function) (arguments : Array Value)
  /-- Run code of the host. -/
  | routine (r : Routine)

/-- An execution context: a queue, whether it is being drained, and the heap of its scripts. It
stays alive while someone holds it or an environment that is kept is active on it. -/
structure Context where
  queue : List Task := []
  running : Bool := false
  heap : Ref .heap
  holders : Nat := 0

/-- Script engines: one can parse ahead, the other evaluates text directly and logs it. -/
inductive Engine where
  | compiling | direct
deriving DecidableEq, Repr

/-- Where an environment takes additional names from. -/
inductive Provider where
  /-- The timers of the context. -/
  | timing
  /-- Bindings of the host's; that they were asked for is logged. -/
  | host (bindings : Bindings)

/-- The period during which an environment is active on a context: as many releases end it as
acquisitions began it. -/
structure Activity where
  context : Ref .context
  depth : Nat

/-- An environment runs modules. It stays alive while someone holds it. -/
structure Environment where
  engine : Engine
  resolver : Resolver
  providers : List Provider
  active : Option Activity := none
  holders : Nat := 1

/-! ### The log -/

/-- What an observer sees of a run. -/
inductive Event where
  /-- A function of the host was called. -/
  | called (name : String) (this : Picture) (arguments : List Picture)
  /-- A lazy binding of the host's was read first. -/
  | realized (name : String)
  /-- The direct engine was asked to evaluate a script. -/
  | direct (script : String)
  /-- A provider of the host's was asked for its bindings. -/
  | provided
  | console (level : ConsoleLevel) (script text : String)
  | resolver (note : Note)
  /-- A listener of the host's received a result. -/
  | heard (tag : Json) (v : Picture)
  /-- A module's result was handed to the host. -/
  | delivered (tag : Json) (v : Picture)
  /-- An action inside a routine of the host's gave an answer. -/
  | did (tag : Json) (a : Answer)
  | started (tag : Json)
  | ended (tag : Json)

/-! ### The history -/

/-- What happens to the queue of a context. -/
inductive QueueMoment where
  /-- A task was put at the end. -/
  | enqueued (t : Task)
  /-- The first task was taken away and began to run. -/
  | started (t : Task)
  | finished (t : Task) (result : Except HostError Unit)
  /-- The tasks that waited were dropped. -/
  | dropped (ts : List Task)

/-- What happens to a container. -/
inductive ContainerMoment where
  /-- A listener began to wait. -/
  | waited (l : Listener)
  /-- The container took its result. -/
  | resolved (v : Value)
  /-- A listener that had waited was told the result. -/
  | told (l : Listener) (v : Value)
  | answered (l : Listener) (result : Except HostError Unit)
  /-- All listeners that had waited were told; this is what the completion comes to. -/
  | settled (result : Except HostError Unit)
  /-- A listener came after the result and was told it at once. -/
  | toldLate (l : Listener) (v : Value)
  | answeredLate (l : Listener) (result : Except HostError Unit)

/-- What happens to a gathering. -/
inductive GatheringMoment where
  /-- It was opened for a number of results. -/
  | opened (n : Nat) (callback : Ref .function) (this : Value) (c : Ref .container)
  /-- The module for a slot failed before it had a result. -/
  | failed (slot : Nat)
  /-- The result for a slot came. -/
  | arrived (slot : Nat) (v : Value)
  /-- The callback was called. -/
  | called (callback : Ref .function) (this : Value) (arguments : Array Value)
  | returned (result : Except HostError Value)

/-- What happens to calls and to the faults in them. -/
inductive CallMoment where
  /-- A call began; `revisits` if it is of a list method that calls back. -/
  | entered (revisits : Bool)
  | left
  /-- The text, number or JSON form of something that holds itself was asked for. -/
  | endless
  /-- A function that calls into the host failed. -/
  | raised (f : Callable) (e : ScriptError)
  /-- A call failed that a script made. -/
  | failed (e : ScriptError)
  /-- Code began to run in the name of a script. -/
  | begun (script : String)
  | ended (script : String) (fault : Option ScriptError)
  /-- The host began something of which it gets an answer. -/
  | acting
  | answered (result : Except HostError Unit)
  /-- Code of the host failed as the host had said. -/
  | supplied (e : HostError)

/-- Something that happened. -/
inductive Moment where
  | queue (c : Ref .context) (m : QueueMoment)
  | container (c : Ref .container) (m : ContainerMoment)
  | gathering (g : Ref .gathering) (m : GatheringMoment)
  | call (m : CallMoment)

/-- What the host keeps by name and number. -/
structure HostState where
  saved : OrderedMap Value := .empty
  containers : Array (Ref .container) := #[]
  /-- The context that the host holds. -/
  context : Option (Ref .context) := none
  /-- The context that the host has a handle of. -/
  handle : Option (Ref .context) := none

/-- All that is shared and can change. -/
structure World where
  lists : Table .list (Array Value) := {}
  objects : Table .object Object := {}
  functions : Table .function Callable := {}
  scopes : Table .scope Scope := {}
  heaps : Table .heap Heap := {}
  flags : Table .flag Bool := {}
  cells : Table .cell Cell := {}
  containers : Table .container Container := {}
  gatherings : Table .gathering Gathering := {}
  contexts : Table .context Context := {}
  environments : Table .environment Environment := {}
  host : HostState := {}
  /-- What was observed, last first. -/
  log : List Event := []
  /-- What happened, last first. -/
  history : List Moment := []

/-- A world in which nothing has been made. -/
def World.empty : World := {}

instance : Inhabited World := ⟨World.empty⟩

end ScriptModules
