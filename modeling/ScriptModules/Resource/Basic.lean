import ScriptModules.Resource.Path

/-!
# Resources

A resource is a node of a repository. It may carry text and may name another one as its supertype.
-/

namespace ScriptModules

/-- A node of a repository. -/
structure Resource where
  path : String
  superType : Option String
  content : Option String
deriving DecidableEq, Repr

/-- The last name of the resource's path. -/
def Resource.name (r : Resource) : String := Path.name r.path

end ScriptModules
