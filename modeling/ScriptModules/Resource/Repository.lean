import ScriptModules.Resource.Directory
import ScriptModules.Resource.Memory

/-!
# Repositories

A repository holds finitely many resources, in memory or in a directory, and a list of search
paths. A relative path is tried under each search path in turn, so that an earlier search path
overlays a later one.

The main statement, `path_of_lookup`, is that a resource bears the path under which it was found.
-/

namespace ScriptModules

/-- Where resources are kept. -/
inductive Store where
  | memory (m : Memory)
  | directory (d : Directory)

namespace Store

/-- The resource at a path. -/
def lookup : Store → String → Option Resource
  | memory m, path => m.lookup path
  | directory d, path => d.lookup path

/-- A bound on the normal paths under which something is kept. An entry of a directory is found
with a slash before its path and without. -/
def size : Store → Nat
  | memory m => m.resources.length
  | directory d => 2 * d.entries.length

theorem path_of_lookup {s : Store} {path : String} {x : Resource}
    (h : s.lookup path = some x) : x.path = path := by
  cases s with
  | memory m => exact Memory.path_of_lookup h
  | directory d => exact Directory.path_of_lookup h

end Store

/-- Resources and an ordered list of search paths. -/
structure Repository where
  store : Store
  searchPaths : List String

namespace Repository

/-- The resource at exactly this path. -/
def lookup (r : Repository) (path : String) : Option Resource := r.store.lookup path

/-- The paths that a name may stand for, the first choice first: its own normal form if it is
absolute, otherwise that of the name under each search path. -/
def candidates (r : Repository) (path : String) : List String :=
  if Path.isAbsolute path.toList then (Path.normalize path).toList
  else r.searchPaths.filterMap fun root => Path.normalize (Path.join root path)

/-- The first resource that a name may stand for. -/
def get (r : Repository) (path : String) : Option Resource :=
  (r.candidates path).findSome? r.lookup

/-- The resource called `name` below another. -/
def child (r : Repository) (parent : Resource) (name : String) : Option Resource :=
  (Path.normalize (Path.join parent.path name)).bind r.lookup

/-- The resource above another. -/
def parent (r : Repository) (x : Resource) : Option Resource :=
  (Path.parent x.path).bind r.lookup

/-- The resource that another names as its supertype. -/
def superTypeOf (r : Repository) (x : Resource) : Option Resource := x.superType.bind r.get

/-- **A resource bears the path under which it was found.** -/
theorem path_of_lookup {r : Repository} {path : String} {x : Resource}
    (h : r.lookup path = some x) : x.path = path := Store.path_of_lookup h

end Repository

end ScriptModules
