import ScriptModules.Resource.Repository
import ScriptModules.Value.Error

/-!
# Finding a module

A dependency is looked up under its own name first. Failing that it is looked up along the chain
of supertypes that starts where the type of the calling script and the type driving the render
meet, and last next to the calling script. A chain ends at the first path that it meets again.

The lookup is a pure function of the repository that also yields the notes written on the way;
`Noted` keeps the two apart, so that what is found can be read without the notes.
-/

namespace ScriptModules

/-- How important a note is. -/
inductive NoteLevel where
  | trace | warn
deriving DecidableEq, Repr

/-- A note written while a module is looked up. -/
structure Note where
  level : NoteLevel
  text : String
deriving DecidableEq, Repr

/-- A value and the notes written on the way to it. -/
structure Noted (α : Type) where
  value : α
  notes : List Note := []

namespace Noted

variable {α β : Type}

instance : Monad Noted where
  pure a := ⟨a, []⟩
  bind x f := ⟨(f x.value).value, x.notes ++ (f x.value).notes⟩

@[simp] theorem value_pure (a : α) : (pure a : Noted α).value = a := rfl

@[simp] theorem value_bind (x : Noted α) (f : α → Noted β) :
    (x >>= f).value = (f x.value).value := rfl

/-- Write a note of the lowest level. -/
def trace (text : String) : Noted Unit := ⟨(), [⟨.trace, text⟩]⟩

/-- Write a warning. -/
def warn (text : String) : Noted Unit := ⟨(), [⟨.warn, text⟩]⟩

end Noted

/-- A module that was found: the path it has in the repository, and its text. -/
structure ModuleSource where
  name : String
  content : String
deriving DecidableEq, Repr

/-- Where a lookup starts from: the calling script, and the type driving the render. -/
structure LookupContext where
  caller : Option String
  driverType : Option String
deriving DecidableEq, Repr

/-- A repository and the ending that marks the names of scripts. -/
structure Resolver where
  repository : Repository
  extension : String := ".js"

/-- A chain of supertypes: its resources up to the first repeated path, and the resource that
repeated it. -/
structure SuperChain where
  nodes : List Resource
  repeated : Option Resource

namespace Repository

/-- The chain from `x` on, when the paths in `visited` have been met; `fuel` bounds its length. -/
def chainFrom (r : Repository) : Nat → List String → Resource → SuperChain
  | 0, _, _ => ⟨[], none⟩
  | fuel + 1, visited, x =>
    if visited.contains x.path then ⟨[], some x⟩
    else
      match r.superTypeOf x with
      | none => ⟨[x], none⟩
      | some y =>
        let tail := chainFrom r fuel (x.path :: visited) y
        ⟨x :: tail.nodes, tail.repeated⟩

/-- The chain of supertypes of a resource. After its first node each node has a normal path of its
own under which it is kept, so the size of the store bounds its length. -/
def superChain (r : Repository) (x : Resource) : SuperChain :=
  r.chainFrom (r.store.size + 2) [] x

end Repository

namespace Resolver

/-- A name next to a resource: two dots lead out of it, any other name is below it. -/
def lookupFrom (r : Resolver) (node : Resource) (dependency : String) : Option Resource :=
  if "..".toList.isPrefixOf dependency.toList then
    (Path.normalize (Path.join node.path dependency)).bind r.repository.get
  else r.repository.child node dependency

/-- Warn of a chain that repeats a path. -/
def warnCycle (repeated : Option Resource) : Noted Unit :=
  match repeated with
  | some x => .warn ("Resource supertype cycle at " ++ x.path)
  | none => pure ()

/-- The hit at the nearest of the nodes. -/
def lookupAlong (r : Resolver) (dependency : String) (repeated : Option Resource) :
    List Resource → Noted (Option Resource)
  | [] => do
    warnCycle repeated
    return none
  | node :: rest => do
    .trace ("Looking up " ++ dependency ++ " under " ++ node.path)
    match r.lookupFrom node dependency with
    | some found => return some found
    | none => lookupAlong r dependency repeated rest

/-- Walk the supertypes of `start` for a dependency. -/
def walkHierarchy (r : Resolver) (start : Resource) (dependency : String) :
    Noted (Option Resource) :=
  let chain := r.repository.superChain start
  r.lookupAlong dependency chain.repeated chain.nodes

/-- Whether a resource is another, or has it among its supertypes. -/
def isResourceType (r : Resolver) (x ancestor : Resource) : Noted Bool :=
  let chain := r.repository.superChain x
  if chain.nodes.any (fun y => y.path = ancestor.path) then pure true
  else do
    warnCycle chain.repeated
    return false

/-- The number of the first search path that a path lies in, and the path seen from it. -/
def overlayPosition (path : String) : Nat → List String → Option (Nat × String)
  | _, [] => none
  | n, root :: rest =>
    match Path.relativeTo path root with
    | some relative => some (n, relative)
    | none => overlayPosition path (n + 1) rest

/-- The node where the walk starts: the caller's type if the driver is one of its supertypes, the
driver if it is the other way round, and for two overlays of one path the one in the earlier
search path. -/
def reconcile (r : Resolver) (callerType driver : Resource) : Noted (Option Resource) := do
  if ← r.isResourceType callerType driver then return some callerType
  if ← r.isResourceType driver callerType then return some driver
  let roots := r.repository.searchPaths
  match overlayPosition callerType.path 0 roots, overlayPosition driver.path 0 roots with
  | some (i, left), some (j, right) =>
    if left ≠ right then return none
    else if i < j then return some callerType
    else return some driver
  | _, _ => return none

/-- What the walk along the supertypes finds. -/
def lookupByDriver (r : Resolver) (callerType : Resource) (driver : Option Resource)
    (dependency : String) : Noted (Option Resource) :=
  match driver with
  | none => pure none
  | some driver => do
    match ← r.reconcile callerType driver with
    | some start => r.walkHierarchy start dependency
    | none => do
      .trace ("No common hierarchy for " ++ callerType.path ++ " and " ++ driver.path)
      return none

/-- What is found through the calling script. -/
def lookupByCaller (r : Resolver) (context : LookupContext) (dependency : String) :
    Noted (Option Resource) :=
  match context.caller.bind r.repository.get with
  | none => pure none
  | some caller =>
    match r.repository.parent caller with
    | none => pure none
    | some callerType => do
      match ← r.lookupByDriver callerType (context.driverType.bind r.repository.get) dependency with
      | some found => return some found
      | none => do
        .trace ("Looking up " ++ dependency ++ " next to " ++ caller.path)
        return r.lookupFrom callerType dependency

/-- The resource that a dependency names. -/
def locate (r : Resolver) (context : LookupContext) (dependency : String) :
    Noted (Option Resource) :=
  match r.repository.get dependency with
  | some found => pure (some found)
  | none => r.lookupByCaller context dependency

/-- Whether a name has the ending of a script. -/
def isScriptName (extension name : String) : Bool := extension.toList.isSuffixOf name.toList

/-- **The module that a dependency names.** -/
def resolve (r : Resolver) (context : LookupContext) (dependency : String) :
    Noted (Except HostError ModuleSource) :=
  if ¬ isScriptName r.extension dependency then
    pure (.error (.unsupportedDependency dependency))
  else do
    match ← r.locate context dependency with
    | none => return .error (.dependencyNotFound dependency)
    | some found => do
      .trace ("Resolved " ++ dependency ++ " to " ++ found.path)
      match found.content with
      | some content => return .ok ⟨found.path, content⟩
      | none => return .error (.dependencyUnreadable dependency)

/-- The path of the script of a name, if the name is not empty and found. -/
def pathOf (r : Resolver) (name : String) : Option String :=
  if name.isEmpty then none else (r.repository.get name).map (·.path)

end Resolver

end ScriptModules
