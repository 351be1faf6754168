import ScriptModules.Resource.Basic

/-!
# Resources kept in memory

Adding a resource puts it under the normal form of its path taken from the root, or under the
root itself if the path climbs above it, and creates the folders above it that are missing. Adding
text keeps a supertype that is there, and adding a supertype keeps the text.

The main statement, `path_of_lookup`, is that a resource is found under its own path only.
-/

namespace ScriptModules

/-- Finitely many resources, each under its own path. -/
structure Memory where
  resources : List Resource

namespace Memory

/-- The resource at exactly this path. -/
def lookup (m : Memory) (path : String) : Option Resource :=
  m.resources.find? fun x => x.path = path

/-- **A resource is found under its own path only.** -/
theorem path_of_lookup {m : Memory} {path : String} {x : Resource}
    (h : m.lookup path = some x) : x.path = path := by
  simpa using List.find?_some h

/-- The root folder alone. -/
def empty : Memory := ⟨[⟨"/", none, none⟩]⟩

/-- The path under which a resource is kept. -/
def keyPath (path : String) : String := (Path.normalize (Path.join "/" path)).getD "/"

/-- The folders above a path, nearest first; `fuel` bounds their number. -/
def foldersAbove : Nat → String → List String
  | 0, _ => []
  | fuel + 1, path =>
    match Path.parent path with
    | none => []
    | some folder => folder :: foldersAbove fuel folder

/-- The resources with a folder at `path`, unless something is there. -/
def ensureFolder (m : Memory) (path : String) : Memory :=
  match m.lookup path with
  | some _ => m
  | none => ⟨m.resources ++ [⟨path, none, none⟩]⟩

/-- The resources with every folder above `path`. -/
def ensureAbove (m : Memory) (path : String) : Memory :=
  (foldersAbove (path.length + 1) path).foldl ensureFolder m

/-- Replace the resource at the path of `x`, or add `x`. -/
def place (x : Resource) : List Resource → List Resource
  | [] => [x]
  | y :: rest => if y.path = x.path then x :: rest else y :: place x rest

/-- The resources with `x` in the place of whatever was at its path. -/
def put (m : Memory) (x : Resource) : Memory := ⟨place x m.resources⟩

/-- Add text. -/
def addScript (m : Memory) (path content : String) : Memory :=
  let key := keyPath path
  let m := m.ensureAbove key
  m.put ⟨key, (m.lookup key).bind (·.superType), some content⟩

/-- Add a node with a supertype, or none. -/
def addType (m : Memory) (path : String) (superType : Option String) : Memory :=
  let key := keyPath path
  let m := m.ensureAbove key
  m.put ⟨key, superType, (m.lookup key).bind (·.content)⟩

end Memory

end ScriptModules
