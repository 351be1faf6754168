import ScriptModules.Json.Reader
import ScriptModules.Module.Resolve
import ScriptModules.Number.Text
import ScriptModules.Text.Quoted
import ScriptModules.Text.Search

/-!
# Configurations

What can be chosen about the modules that templates ask for. A configuration is written as a JSON
object in which every field may be missing, or as a list of the fields in order, of which the last
may be missing. The text is read from left to right, and the first fault ends the reading: a fault
of the text itself, or a field that is unknown, repeated, or of a wrong kind.
-/

namespace ScriptModules

/-- The choices for the modules that templates ask for. -/
structure Configuration where
  /-- The name that the engine is asked for under. -/
  engineName : String := "js"
  /-- The ending of the names of scripts. -/
  scriptExtension : String := ".js"
  /-- Those who rank higher are asked first. -/
  serviceRanking : Int := 80
deriving DecidableEq, Repr

namespace Configuration

/-- Whether an identifier names a script. -/
def isScript (c : Configuration) (identifier : String) : Bool :=
  Resolver.isScriptName c.scriptExtension identifier

/-- The fields of a configuration, in order. -/
inductive Field where
  | engineName | scriptExtension | serviceRanking
deriving DecidableEq, Repr

namespace Field

/-- Every field, in order. -/
def all : List Field := [engineName, scriptExtension, serviceRanking]

/-- The name of a field in the text. -/
def name : Field → String
  | engineName => "engine_name"
  | scriptExtension => "script_extension"
  | serviceRanking => "service_ranking"

/-- The field of a name. -/
def ofName? (name : String) : Option Field := all.find? fun f => f.name = name

end Field

/-! ### Faults -/

/-- The fault of a configuration whose text is no JSON. -/
def faultOf : Json.Fault → ConfigFault
  | .truncated => .truncated
  | .malformed => .malformed

/-- A reading with the faults of the text seen as faults of a configuration. -/
def lift {α : Type} : Except Json.Fault α → Except ConfigFault α
  | .ok a => .ok a
  | .error e => .error (faultOf e)

/-- The words for a number that stands in a wrong place. -/
def numberWords : Json → String
  | .integer i => s!"integer `{i}`"
  | .float x => "floating point `" ++ Number.jsonText x ++ "`"
  | _ => ""

/-- The words for the value that begins with the character `c`. Lists and objects are not looked
into. -/
def valueWords (c : Char) (rest : List Char) : Except Json.Fault String :=
  if c = 'n' then (Json.word "ull".toList rest).map fun _ => "null"
  else if c = 't' then (Json.word "rue".toList rest).map fun _ => "boolean `true`"
  else if c = 'f' then (Json.word "alse".toList rest).map fun _ => "boolean `false`"
  else if c = '-' then (Json.number true rest).map fun r => numberWords r.1
  else if Number.isDigit c then (Json.number false (c :: rest)).map fun r => numberWords r.1
  else if c = '"' then
    (Json.stringBody (rest.length + 1) [] rest).map fun r => "string " ++ Text.quoted r.1
  else if c = '[' then .ok "sequence"
  else if c = '{' then .ok "map"
  else .error .malformed

/-- The fault that a value of another kind stands where `expected` should. -/
def wrongKind (expected : String) (c : Char) (rest : List Char) : ConfigFault :=
  match valueWords c rest with
  | .ok words => .invalid ("invalid type: " ++ words ++ ", expected " ++ expected)
  | .error e => faultOf e

/-- The fault of a name that no field has. -/
def unknownField (name : String) : ConfigFault :=
  .invalid ("unknown field `" ++ name ++ "`, expected one of " ++
    Text.joined ", " (Field.all.map fun f => "`" ++ f.name ++ "`"))

/-- The fault of a field that is given again. -/
def repeatedField (f : Field) : ConfigFault := .invalid ("duplicate field `" ++ f.name ++ "`")

/-! ### Values -/

/-- A text. -/
def readText (s : List Char) : Except ConfigFault (String × List Char) :=
  match Json.skipSpace s with
  | [] => .error .truncated
  | c :: rest =>
    if c = '"' then lift (Json.stringBody (rest.length + 1) [] rest)
    else .error (wrongKind "a string" c rest)

/-- Whether 32 bits with a sign hold a number. -/
def fits (i : Int) : Bool := -2147483648 ≤ i && i ≤ 2147483647

/-- A ranking among the numbers. -/
def rankingOf (r : Json × List Char) : Except ConfigFault (Int × List Char) :=
  match r.1 with
  | .integer i =>
    if fits i then .ok (i, r.2)
    else .error (.invalid ("invalid value: " ++ numberWords r.1 ++ ", expected i32"))
  | j => .error (.invalid ("invalid type: " ++ numberWords j ++ ", expected i32"))

/-- A ranking. -/
def readRanking (s : List Char) : Except ConfigFault (Int × List Char) :=
  match Json.skipSpace s with
  | [] => .error .truncated
  | c :: rest =>
    if c = '-' then lift (Json.number true rest) >>= rankingOf
    else if Number.isDigit c then lift (Json.number false (c :: rest)) >>= rankingOf
    else .error (wrongKind "i32" c rest)

/-- The value of a field, stored in a configuration. -/
def readField (f : Field) (c : Configuration) (s : List Char) :
    Except ConfigFault (Configuration × List Char) :=
  match f with
  | .engineName => do
    let (t, rest) ← readText s
    return ({ c with engineName := t }, rest)
  | .scriptExtension => do
    let (t, rest) ← readText s
    return ({ c with scriptExtension := t }, rest)
  | .serviceRanking => do
    let (i, rest) ← readRanking s
    return ({ c with serviceRanking := i }, rest)

/-! ### The two forms -/

/-- The end of a list that has no room for another item. -/
def endOfList (s : List Char) : Except ConfigFault (List Char) :=
  match Json.skipSpace s with
  | [] => .error .truncated
  | c :: rest => if c = ']' then .ok rest else .error .malformed

/-- The fields that are left, as items of a list. -/
def readItems (first : Bool) (c : Configuration) (s : List Char) :
    List Field → Except ConfigFault (Configuration × List Char)
  | [] => do return (c, ← endOfList s)
  | f :: left => do
    match ← lift (Json.nextItem first s) with
    | .done rest => return (c, rest)
    | .more rest =>
      let (c, rest) ← readField f c rest
      readItems false c rest left

/-- The name of a field, which must be among those that are left. -/
def readName (left : List Field) (s : List Char) : Except ConfigFault (Field × List Char) := do
  let (name, rest) ← lift (Json.stringBody (s.length + 1) [] s)
  match Field.ofName? name with
  | none => .error (unknownField name)
  | some f => if left.contains f then return (f, rest) else .error (repeatedField f)

/-- The fields of an object; `left` are those not given yet. As none is given twice, there are at
most `count` more. -/
def readFields : (count : Nat) → (left : List Field) → (first : Bool) → Configuration →
    List Char → Except ConfigFault (Configuration × List Char)
  | 0, _, _, _, _ => .error .malformed
  | count + 1, left, first, c, s => do
    match ← lift (Json.nextField first s) with
    | .done rest => return (c, rest)
    | .more rest =>
      let (f, rest) ← readName left rest
      let rest ← lift (Json.colon rest)
      let (c, rest) ← readField f c rest
      readFields count (left.erase f) false c rest

/-- A configuration at the head of a text. -/
def readHead (s : List Char) : Except ConfigFault (Configuration × List Char) :=
  match Json.skipSpace s with
  | [] => .error .truncated
  | c :: rest =>
    if c = '[' then readItems true {} rest Field.all
    else if c = '{' then readFields (Field.all.length + 1) Field.all true {} rest
    else .error (wrongKind "struct ProviderConfig" c rest)

/-- **The configuration written in a text,** which it must fill. -/
def read (text : String) : Except ConfigFault Configuration := do
  let (c, rest) ← readHead text.toList
  lift (Json.atEnd rest)
  return c

end Configuration

end ScriptModules
