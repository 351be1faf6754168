/-!
# Arguments of the command line

The words of a command line name one module and choose how to run it. An option takes its value
from behind an equals sign or from the next word, which must not look like an option. Options that
say one thing are given at most once. Behind two dashes every word is the module.
-/

namespace ScriptModules.CommandLine

/-- The options that take a value. -/
inductive Choice where
  | root | searchPath | resourceType | script | argument | config
deriving DecidableEq, Repr

namespace Choice

/-- Every choice. -/
def all : List Choice := [root, searchPath, resourceType, script, argument, config]

/-- The word of a choice behind two dashes. -/
def word : Choice → String
  | root => "root"
  | searchPath => "search-path"
  | resourceType => "resource-type"
  | script => "script"
  | argument => "arg"
  | config => "config"

/-- The choice of a word behind two dashes. -/
def ofWord? (w : String) : Option Choice := all.find? fun c => c.word = w

/-- The choice of a letter behind one dash. -/
def ofLetter? (c : Char) : Option Choice := if c = 'r' then some root else none

end Choice

/-- What a command line asks for. -/
structure Invocation where
  /-- The module to run. -/
  module : String
  /-- The directory of the repository. -/
  root : String
  searchPaths : List String
  resourceType : Option String
  script : Option String
  /-- What the module sees as `this`, by name. -/
  arguments : List (String × String)
  /-- The file of the configuration. -/
  config : Option String
deriving DecidableEq, Repr

/-- The search paths if none are given. -/
def usualSearchPaths : List String := ["/apps", "/libs"]

/-- What has been read of a command line. -/
structure Draft where
  module : Option String := none
  root : Option String := none
  searchPaths : List String := []
  resourceType : Option String := none
  script : Option String := none
  arguments : List (String × String) := []
  config : Option String := none

/-- A name and its value around the first equals sign. -/
def splitArgument (s : List Char) : Option (String × String) :=
  match s.dropWhile (· ≠ '=') with
  | [] => none
  | _ :: value =>
    let key := s.takeWhile (· ≠ '=')
    if key.isEmpty then none else some (String.ofList key, String.ofList value)

/-- The value for something that is given once. -/
def once (old : Option String) (value : String) : Option (Option String) :=
  match old with
  | some _ => none
  | none => some (some value)

/-- The path for something that is given once; a path is not empty. -/
def oncePath (old : Option String) (value : String) : Option (Option String) :=
  if value.isEmpty then none else once old value

namespace Draft

/-- Take the value of a choice. -/
def choose (d : Draft) (c : Choice) (value : String) : Option Draft :=
  match c with
  | .root => (oncePath d.root value).map fun v => { d with root := v }
  | .searchPath => some { d with searchPaths := d.searchPaths ++ [value] }
  | .resourceType => (once d.resourceType value).map fun v => { d with resourceType := v }
  | .script => (once d.script value).map fun v => { d with script := v }
  | .argument => (splitArgument value.toList).map fun a => { d with arguments := d.arguments ++ [a] }
  | .config => (oncePath d.config value).map fun v => { d with config := v }

/-- Take a word that belongs to no option. -/
def place (d : Draft) (w : String) : Option Draft :=
  (once d.module w).map fun v => { d with module := v }

/-- What the words ask for, if nothing is missing. -/
def finish (d : Draft) : Option Invocation :=
  match d.module, d.root with
  | some module, some root => some {
      module := module
      root := root
      searchPaths := if d.searchPaths.isEmpty then usualSearchPaths else d.searchPaths
      resourceType := d.resourceType
      script := d.script
      arguments := d.arguments
      config := d.config }
  | _, _ => none

end Draft

/-- What a word is. -/
inductive Word where
  /-- Two dashes. -/
  | separator
  /-- An option, perhaps with its value. -/
  | choice (c : Choice) (value : Option String)
  /-- A request to be told about the program. -/
  | help
  | unknown
  | plain

/-- What a word behind two dashes is. -/
def longWord (w : List Char) : Word :=
  let name := String.ofList (w.takeWhile (· ≠ '='))
  match w.dropWhile (· ≠ '=') with
  | [] =>
    if name = "help" ∨ name = "version" then .help
    else
      match Choice.ofWord? name with
      | some c => .choice c none
      | none => .unknown
  | _ :: value =>
    match Choice.ofWord? name with
    | some c => .choice c (some (String.ofList value))
    | none => .unknown

/-- What a word behind one dash is, from its letter on. -/
def shortWord (letter : Char) (rest : List Char) : Word :=
  if letter = 'h' ∨ letter = 'V' then .help
  else
    match Choice.ofLetter? letter with
    | none => .unknown
    | some c =>
      match rest with
      | [] => .choice c none
      | '=' :: value => .choice c (some (String.ofList value))
      | value => .choice c (some (String.ofList value))

/-- **What a word is.** A single dash is a word like any other. -/
def classify (w : String) : Word :=
  match w.toList with
  | ['-', '-'] => .separator
  | '-' :: '-' :: rest => longWord rest
  | ['-'] => .plain
  | '-' :: letter :: rest => shortWord letter rest
  | _ => .plain

/-- Whether a word can be the value of the option before it. -/
def isValue (w : String) : Bool :=
  match classify w with
  | .plain => true
  | _ => false

/-- What the words come to. -/
inductive Reading where
  | run (i : Invocation)
  /-- Tell about the program. -/
  | help
  /-- The words do not make sense. -/
  | misused

/-- The reading of a draft after its last word. -/
def Reading.ofDraft : Option Draft → Reading
  | none => misused
  | some d =>
    match d.finish with
    | some i => run i
    | none => misused

/-- Take words that belong to no option. -/
def placeAll : Option Draft → List String → Option Draft
  | none, _ => none
  | some d, [] => some d
  | some d, w :: rest => placeAll (d.place w) rest

/-- The reading of the words that follow what has been read. -/
def readFrom (d : Draft) : List String → Reading
  | [] => .ofDraft (some d)
  | [w] =>
    match classify w with
    | .separator => .ofDraft (some d)
    | .choice c (some value) => .ofDraft (d.choose c value)
    | .choice _ none | .unknown => .misused
    | .help => .help
    | .plain => .ofDraft (d.place w)
  | w :: next :: rest =>
    match classify w with
    | .separator => .ofDraft (placeAll (some d) (next :: rest))
    | .choice c (some value) =>
      match d.choose c value with
      | some d => readFrom d (next :: rest)
      | none => .misused
    | .choice c none =>
      if isValue next then
        match d.choose c next with
        | some d => readFrom d rest
        | none => .misused
      else .misused
    | .unknown => .misused
    | .help => .help
    | .plain =>
      match d.place w with
      | some d => readFrom d (next :: rest)
      | none => .misused

/-- **What the words of a command line ask for.** -/
def read (words : List String) : Reading := readFrom {} words

end ScriptModules.CommandLine
