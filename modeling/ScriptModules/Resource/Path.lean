/-!
# Repository paths

Paths are names with slashes between them; an absolute path begins with a slash. Normalizing
drops empty names and single dots and lets each pair of dots take back the name before it; a path
that climbs above its beginning has no normal form.
-/

namespace ScriptModules.Path

/-- The pieces between the slashes of a text; there is always one. -/
def pieces : List Char → List (List Char)
  | [] => [[]]
  | c :: rest =>
    if c = '/' then [] :: pieces rest
    else
      match pieces rest with
      | p :: ps => (c :: p) :: ps
      | [] => [[c]]

/-- Walk along pieces from the names `above` (nearest first). -/
def walk (above : List (List Char)) : List (List Char) → Option (List (List Char))
  | [] => some above.reverse
  | p :: rest =>
    if p = [] ∨ p = ['.'] then walk above rest
    else if p = ['.', '.'] then
      match above with
      | [] => none
      | _ :: above => walk above rest
    else walk (p :: above) rest

/-- The names of a path, with dots taken out. -/
def names? (path : List Char) : Option (List (List Char)) := walk [] (pieces path)

/-- Whether the path begins with a slash. -/
def isAbsolute (path : List Char) : Bool := path.head? == some '/'

/-- Names with slashes between them. -/
def unite (names : List (List Char)) : List Char := List.intercalate ['/'] names

/-- **The normal form of a path,** if it does not climb above its beginning. -/
def normalize (path : String) : Option String :=
  let cs := path.toList
  (names? cs).map fun names =>
    String.ofList (if isAbsolute cs then '/' :: unite names else unite names)

/-- The text without its slashes at the end. -/
def trimSlashes (cs : List Char) : List Char := (cs.reverse.dropWhile (· = '/')).reverse

/-- `name` seen from `base`; an absolute name stays as it is. -/
def join (base name : String) : String :=
  if isAbsolute name.toList then name
  else String.ofList (trimSlashes base.toList ++ '/' :: name.toList)

/-- The last name of a text without slashes at its end, and what stands before the slash in front
of that name, if there is one. -/
def splitLast (cs : List Char) : Option (List Char) × List Char :=
  let rev := cs.reverse
  match rev.dropWhile (· ≠ '/') with
  | [] => (none, cs)
  | _ :: before => (some before.reverse, (rev.takeWhile (· ≠ '/')).reverse)

/-- The path one name shorter; the root has none. -/
def parent (path : String) : Option String :=
  match (splitLast (trimSlashes path.toList)).1 with
  | none => none
  | some [] => some "/"
  | some before => some (String.ofList before)

/-- The last name of a path. -/
def name (path : String) : String := String.ofList (splitLast (trimSlashes path.toList)).2

/-- What is left of a text behind its beginning `start`. -/
def stripPrefix? (start cs : List Char) : Option (List Char) :=
  if start.isPrefixOf cs then some (cs.drop start.length) else none

/-- `path` seen from `root`, if it lies at or below it. -/
def relativeTo (path root : String) : Option String :=
  let cs := path.toList
  let top := trimSlashes root.toList
  if cs = top then some ""
  else ((stripPrefix? top cs).bind (stripPrefix? ['/'])).map String.ofList

end ScriptModules.Path
