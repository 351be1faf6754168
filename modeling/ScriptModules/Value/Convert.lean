import ScriptModules.Number.Text
import ScriptModules.Number.Read
import ScriptModules.Text.Blank
import ScriptModules.Text.Search
import ScriptModules.World.Run

/-!
# Conversions of values

Text, number and JSON of a value. The text and the number of a list come from its items, so a list
that holds itself has neither, and nothing that holds itself has a JSON form. Each conversion looks
at the world and leaves it alone. The number of things that can be entered on one path bounds its
depth, so that it gives up only on what holds itself.
-/

namespace ScriptModules

/-- The name of a timer. -/
def Timer.name : Timer → String
  | .immediate => "setImmediate"
  | .timeout => "setTimeout"

/-- The name of a member of a list. -/
def ListMethod.name : ListMethod → String
  | .push => "push"
  | .join => "join"
  | .map => "map"
  | .forEach => "forEach"
  | .indexOf => "indexOf"

/-- The name of a member of a text. -/
def TextMethod.name : TextMethod → String
  | .toUpperCase => "toUpperCase"
  | .toLowerCase => "toLowerCase"
  | .trim => "trim"
  | .indexOf => "indexOf"

/-- The name of a function. -/
def Callable.name : Callable → String
  | .closure c => c.name
  | .listMethod m _ => m.name
  | .textMethod m _ => m.name
  | .console m _ => m.name
  | .timer t _ => t.name
  | .use _ => "use"
  | .host h => h.name

/-- The name of a function of the world. -/
def World.functionName (w : World) (f : Ref .function) : String :=
  match w.functions.get? f with
  | some c => c.name
  | none => ""

namespace Value

/-- The number that a text stands for: blank is zero, and what is no number is not a number. -/
def numberOfText (s : String) : Float :=
  let cs := Text.trimChars s.toList
  if cs.isEmpty then 0.0 else (Number.read? cs).getD Number.nan

/-- The number of a value, entering at most `fuel` lists. -/
def toNumberIn (w : World) : Nat → Value → Option Float
  | _, undefined => some Number.nan
  | _, null => some 0.0
  | _, boolean b => some (if b then 1.0 else 0.0)
  | _, number x => some x
  | _, text s => some (numberOfText s)
  | 0, list _ => none
  | fuel + 1, list l =>
    match (w.items l).toList with
    | [] => some 0.0
    | [v] => toNumberIn w fuel v
    | _ => some Number.nan
  | _, object _ => some Number.nan
  | _, function _ => some Number.nan
  | _, container _ => some Number.nan

/-- **The number of a value.** A list of one item has the number of the item. -/
def toNumber? (w : World) (v : Value) : Option Float := toNumberIn w (w.lists.size + 1) v

/-- The text of a value, entering at most `fuel` lists. -/
def toTextIn (w : World) : Nat → Value → Option String
  | _, undefined => some "undefined"
  | _, null => some "null"
  | _, boolean b => some (if b then "true" else "false")
  | _, number x => some (Number.text x)
  | _, text s => some s
  | 0, list _ => none
  | fuel + 1, list l =>
    ((w.items l).toList.mapM fun (v : Value) => if v.isNullish then some "" else toTextIn w fuel v).map
      (Text.joined ",")
  | _, object _ => some "[object Object]"
  | _, function f => some ("function " ++ w.functionName f ++ "() \x7b [code] \x7d")
  | _, container _ => some "[object AsyncContainer]"

/-- **The text of a value.** The items of a list stand between commas, nullish ones as nothing. -/
def toText? (w : World) (v : Value) : Option String := toTextIn w (w.lists.size + 1) v

/-- The JSON form of a number: an integer if it is whole and small enough, null if not finite. -/
def numberToJson (x : Float) : Json :=
  match Number.decode x with
  | .finite negative m e =>
    if Number.isWhole m e && Number.wholePart m e < 9 * Nat.pow 10 15 then
      .integer (if negative then -(Number.wholePart m e : Int) else Number.wholePart m e)
    else .float x
  | _ => .null

/-- The JSON form of a value, entering at most `fuel` lists, objects and containers. -/
def toJsonIn (w : World) : Nat → Value → Option Json
  | _, undefined => some .null
  | _, null => some .null
  | _, boolean b => some (.boolean b)
  | _, number x => some (numberToJson x)
  | _, text s => some (.text s)
  | _, function _ => some .null
  | 0, list _ => none
  | 0, object _ => none
  | 0, container _ => none
  | fuel + 1, list l => ((w.items l).toList.mapM fun v => toJsonIn w fuel v).map .list
  | fuel + 1, object o =>
    ((w.object o).properties.entries.mapM fun p => (toJsonIn w fuel p.2).map fun j => (p.1, j)).map
      fun fields => .object (Json.sortFields fields)
  | fuel + 1, container c =>
    match w.result? c with
    | some v => toJsonIn w fuel v
    | none => some .null

/-- The number of things in the world that hold others. -/
def holderCount (w : World) : Nat := w.lists.size + w.objects.size + w.containers.size

/-- **The JSON form of a value.** Functions are null, a container is its result, and the fields of
an object are sorted by name. -/
def toJson? (w : World) (v : Value) : Option Json := toJsonIn w (holderCount w + 1) v

/-- **Loose equality.** Nullish values are equal to each other only; numbers and texts, and booleans
and anything, are compared as numbers; all else strictly. -/
def looseEquals? (w : World) (a b : Value) : Option Bool :=
  if a.isNullish && b.isNullish then some true
  else if a.isNullish || b.isNullish then some false
  else
    let asNumbers : Option Bool := do
      let x ← a.toNumber? w
      let y ← b.toNumber? w
      return x == y
    match a, b with
    | number _, text _ => asNumbers
    | text _, number _ => asNumbers
    | boolean _, _ => asNumbers
    | _, boolean _ => asNumbers
    | _, _ => some (a.strictEquals b)

/-- What one sees of a value inside the things `above`, entering at most `fuel` more. -/
def pictureIn (w : World) : Nat → List Value → Value → Picture
  | _, _, undefined => .undefined
  | _, _, null => .null
  | _, _, boolean b => .boolean b
  | _, _, number x => .number x
  | _, _, text s => .text s
  | _, _, function f =>
    match w.functions.get? f with
    | some (.closure c) => .closure c.name c.params c.isArrow
    | _ => .native (w.functionName f)
  | 0, _, list _ => .cycle .list
  | 0, _, object _ => .cycle .object
  | 0, _, container _ => .cycle .container
  | fuel + 1, above, list l =>
    if above.any (strictEquals (list l)) then .cycle .list
    else .list ((w.items l).toList.map fun v => pictureIn w fuel (list l :: above) v)
  | fuel + 1, above, object o =>
    if above.any (strictEquals (object o)) then .cycle .object
    else
      .object ((w.object o).properties.entries.map fun p =>
        (p.1, pictureIn w fuel (object o :: above) p.2))
  | fuel + 1, above, container c =>
    if above.any (strictEquals (container c)) then .cycle .container
    else
      match w.container c with
      | .pending ls => .pending ls.length
      | .resolved v => .resolved (pictureIn w fuel (container c :: above) v)

/-- **What one sees of a value.** -/
def picture (w : World) (v : Value) : Picture := pictureIn w (holderCount w + 1) [] v

mutual

/-- Make the value that a JSON value describes. -/
def ofJson {ε : Type} : Json → Run ε Value
  | .null => return .null
  | .boolean b => return .boolean b
  | .integer i => return .number (Float.ofInt i)
  | .float x => return .number x
  | .text s => return .text s
  | .list items => do
    let vs ← ofJsonItems items
    return .list (← Run.newList vs.toArray)
  | .object fields => do
    let properties ← ofJsonFields fields
    return .object (← Run.newObject { properties := .ofList properties })

/-- Make the values that JSON values describe, in order. -/
def ofJsonItems {ε : Type} : List Json → Run ε (List Value)
  | [] => return []
  | j :: rest => do
    let v ← ofJson j
    return v :: (← ofJsonItems rest)

/-- Make the properties that fields describe, in order. -/
def ofJsonFields {ε : Type} : List (String × Json) → Run ε (List (String × Value))
  | [] => return []
  | (name, j) :: rest => do
    let v ← ofJson j
    return (name, v) :: (← ofJsonFields rest)

end

end Value

namespace Run

variable {ε : Type}

/-- The text of a value. -/
def textOf (v : Value) : Run ε String := formOf v.toText?

/-- The number of a value. -/
def numberOf (v : Value) : Run ε Float := formOf v.toNumber?

/-- The JSON form of a value. -/
def jsonOf (v : Value) : Run ε Json := formOf v.toJson?

/-- What one sees of a value. -/
def pictureOf (v : Value) : Run ε Picture := read v.picture

end Run

end ScriptModules
