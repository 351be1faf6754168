import ScriptModules.CommandLine.Arguments
import ScriptModules.Json.Printer
import ScriptModules.Machine.Fuel
import ScriptModules.Render.Provision

/-!
# Running from the command line

A run prints the JSON form of the module's value, or says on the other stream why there is none.
What is read from the files around the program comes in as data, so the report is a function of it.
-/

namespace ScriptModules.CommandLine

/-- What a run prints, and its exit code. -/
structure Report where
  code : Nat
  output : String := ""
  errors : String := ""
deriving DecidableEq, Repr

/-- What was found in the files that an invocation names. -/
structure Found where
  /-- The text of the configuration, if a file is named. -/
  configuration : Except FileFault String := .ok ""
  /-- The directory of the repository, if it is one. -/
  root : Option Directory

/-- A report of something that went wrong. -/
def Report.failure (message : String) : Report := { code := 1, errors := message ++ "\n" }

namespace Invocation

/-- The configuration of a run: the usual one if no file is named. -/
def configuration (i : Invocation) (found : Found) : Except HostError Configuration :=
  match i.config, found.configuration with
  | none, _ => .ok {}
  | some _, .error fault => .error (.file fault)
  | some _, .ok text =>
    match Configuration.read text with
    | .ok c => .ok c
    | .error fault => .error (.config fault)

/-- Bindings with a name bound to a text, if there is one. -/
def bindText (b : Bindings) (name : String) : Option String → Bindings
  | none => b
  | some s => b.put name (.text s)

/-- The names that the render provides. -/
def globals (i : Invocation) : Bindings :=
  bindText (bindText {} ReservedName.resourceType i.resourceType) ReservedName.renderScript i.script

/-- The value of an argument: what its text means as JSON, or else the text. -/
def argumentValue {ε : Type} (text : String) : Run ε Value :=
  match Json.read text with
  | .ok j => Value.ofJson j
  | .error _ => return .text text

/-- Bindings with the arguments added in order. -/
def bindArguments {ε : Type} (b : Bindings) : List (String × String) → Run ε Bindings
  | [] => return b
  | (name, text) :: rest => do
    let v ← argumentValue text
    bindArguments (b.put name v) rest

/-- Run the module and report what it comes to. -/
def reportIn (m : Machine) (i : Invocation) (p : ModuleProvider) : Hosted Report := do
  let arguments ← bindArguments {} i.arguments
  match ← p.provide m i.module i.globals arguments with
  | .provided v => return { code := 0, output := (← Run.jsonOf v).pretty ++ "\n" }
  | .failed e => return .failure ("Error: " ++ e.message)
  | .declined => return { code := 2, errors := "'" ++ i.module ++ "' is not a script module\n" }

/-- **The report of a run;** none if it does not end within the fuel. -/
def report? (fuel : Nat) (i : Invocation) (found : Found) : Option Report :=
  match i.configuration found with
  | .error e =>
    some (.failure ("Error loading configuration '" ++ i.config.getD "" ++ "': " ++ e.message))
  | .ok c =>
    match found.root with
    | none =>
      some (.failure
        ("Error opening repository: repository root " ++ i.root ++ " is not a directory"))
    | some d =>
      let p : ModuleProvider := { configuration := c, repository := ⟨.directory d, i.searchPaths⟩ }
      match (i.reportIn (.ofFuel fuel) p World.empty).1 with
      | .done r => some r
      | .failed e => some (.failure ("Error: " ++ e.message))
      | .exhausted => none

end Invocation

end ScriptModules.CommandLine
