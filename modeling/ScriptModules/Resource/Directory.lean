import ScriptModules.Resource.Basic
import ScriptModules.Text.Blank

/-!
# Directories

The path of a resource is a way through the files and folders below a directory. The way is walked
as it is written: it may go round by dots or by doubled slashes, but each of its steps leaves from a
folder. Two dots at the top lead outside, where folders alone are known and no names in them. A
folder may hold a file that names its supertype. A file that is no text has no content.

The main statement, `path_of_lookup`, is that a resource bears the path that was walked to it.
-/

namespace ScriptModules

/-- What lies at a place below a directory: a folder, or a file with its text, if it is text. -/
inductive Entry where
  | folder
  | file (text : Option String)
deriving DecidableEq, Repr

/-- The files and folders below a directory, each under its names from the top. -/
structure Directory where
  entries : List (List String × Entry)

/-- A place that a way leads to: under names from the top of a directory, or a folder outside. -/
inductive Place where
  | inside (names : List String)
  | outside
deriving DecidableEq, Repr

/-- The folder that a place is in. -/
def Place.up : Place → Place
  | inside [] => outside
  | inside (n :: names) => inside (n :: names).dropLast
  | outside => outside

namespace Directory

/-- The name of the file that declares the supertype of its folder. -/
def superTypeFile : String := ".resourceSuperType"

/-- What lies under the given names. -/
def find? (d : Directory) (names : List String) : Option Entry :=
  (d.entries.find? fun e => e.1 = names).map (·.2)

/-! ### Making directories -/

/-- A directory with nothing in it. -/
def empty : Directory := ⟨[([], .folder)]⟩

/-- Put an entry under the given names, in the place of what is there. -/
def put (d : Directory) (names : List String) (e : Entry) : Directory :=
  ⟨d.entries.filter (fun x => x.1 ≠ names) ++ [(names, e)]⟩

/-- The names of a path, with dots taken out. -/
def namesOf (path : String) : List String :=
  ((Path.names? path.toList).getD []).map String.ofList

/-- The directory with a folder under the given names and under every beginning of them. -/
def makeFolder (d : Directory) (names : List String) : Directory :=
  (List.range (names.length + 1)).foldl
    (fun d n =>
      let above := names.take n
      match d.find? above with
      | some _ => d
      | none => d.put above .folder)
    d

/-- The directory with a file at `path`, in folders made for it. -/
def writeFile (d : Directory) (path : String) (text : Option String) : Directory :=
  let names := namesOf path
  (d.makeFolder names.dropLast).put names (.file text)

/-- The directory with a folder at `path`, and in it a file that names its supertype if one is
given. -/
def writeType (d : Directory) (path : String) (superType : Option String) : Directory :=
  let names := namesOf path
  let d := d.makeFolder names
  match superType with
  | none => d
  | some t => d.put (names ++ [superTypeFile]) (.file (some t))

/-! ### Walking -/

/-- Whether a place is a folder. -/
def isFolder (d : Directory) : Place → Bool
  | .inside names => d.find? names = some .folder
  | .outside => true

/-- The place of a name in the folder at a place. -/
def enter (d : Directory) (name : String) : Place → Option Place
  | .inside names =>
    let inner := names ++ [name]
    if (d.find? inner).isSome then some (.inside inner) else none
  | .outside => none

/-- One step of a way: a folder is left by a name in it, or upwards by two dots; nothing and a
single dot stay in it. -/
def step (d : Directory) (p : Place) (piece : String) : Option Place :=
  if ¬ d.isFolder p then none
  else if piece = "" ∨ piece = "." then some p
  else if piece = ".." then some p.up
  else d.enter piece p

/-- **Where a path leads to,** walked from the top. Slashes at its beginning do not count. -/
def locate (d : Directory) (path : String) : Option Place :=
  ((Path.pieces (path.toList.dropWhile (· = '/'))).map String.ofList).foldlM d.step (.inside [])

/-- What is known of a place. -/
def entryAt (d : Directory) : Place → Option Entry
  | .inside names => d.find? names
  | .outside => some .folder

/-- The entry as one sees it from the folder under the given names, if it lies below that. -/
def relative? (names : List String) (e : List String × Entry) : Option (List String × Entry) :=
  if names.isPrefixOf e.1 then some (e.1.drop names.length, e.2) else none

/-- The directory that a place is, if it is one. Nothing is known to be in a folder outside. -/
def below? (d : Directory) (p : Place) : Option Directory :=
  if ¬ d.isFolder p then none
  else
    match p with
    | .inside names => some ⟨d.entries.filterMap (relative? names)⟩
    | .outside => some empty

/-! ### Resources -/

/-- The supertype that the folder under the given names declares: the text of its file, if there
is more than blank. -/
def superType? (d : Directory) (names : List String) : Option String :=
  match d.find? (names ++ [superTypeFile]) with
  | some (.file (some text)) =>
    let t := Text.trim text
    if t.isEmpty then none else some t
  | _ => none

/-- The resource that a place is, for a path that leads to it. -/
def resource (d : Directory) (path : String) : Place → Resource
  | .outside => ⟨path, none, none⟩
  | .inside names =>
    match d.find? names with
    | some (.file text) => ⟨path, none, text⟩
    | _ => ⟨path, d.superType? names, none⟩

/-- The resource that a path leads to. -/
def lookup (d : Directory) (path : String) : Option Resource :=
  (d.locate path).map (d.resource path)

theorem resource_path (d : Directory) (path : String) (p : Place) :
    (d.resource path p).path = path := by
  unfold resource
  split
  · rfl
  · split <;> rfl

/-- **A resource bears the path that was walked to it.** -/
theorem path_of_lookup {d : Directory} {path : String} {x : Resource}
    (h : d.lookup path = some x) : x.path = path := by
  obtain ⟨p, -, rfl⟩ := Option.map_eq_some_iff.1 h
  exact d.resource_path path p

end Directory

end ScriptModules
