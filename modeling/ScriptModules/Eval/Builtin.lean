import ScriptModules.Eval.Expression
import ScriptModules.Json.Printer
import ScriptModules.Text.Case

/-!
# Built-in functions

The methods of lists and texts and of the console. The two methods that call back visit the items
that the list had when they were called, whatever the callback does to the list meanwhile.
-/

namespace ScriptModules

namespace Run

variable {ε : Type}

/-- The text of an item inside a joined list. -/
def itemText (v : Value) : Run ε String := if v.isNullish then return "" else textOf v

/-- The texts of items, in order. -/
def itemTexts : List Value → Run ε (List String)
  | [] => return []
  | v :: rest => do
    let s ← itemText v
    return s :: (← itemTexts rest)

/-- A value as the console shows it: texts as they are, lists and objects as JSON. -/
def consoleText (v : Value) : Run ε String :=
  match v with
  | .text s => return s
  | .list _ | .object _ => do return (← jsonOf v).compact
  | _ => textOf v

/-- Values as the console shows them. -/
def consoleTexts : List Value → Run ε (List String)
  | [] => return []
  | v :: rest => do
    let s ← consoleText v
    return s :: (← consoleTexts rest)

end Run

namespace ListMethod

/-- Put values at the end of a list; yields the new length. -/
def pushAll (l : Ref .list) (arguments : Array Value) : Script Value := fun w =>
  let size := (w.items l).size + arguments.size
  if listLimit < size then (.failed (.thrown "RangeError: Invalid array length"), w)
  else (.done (.number (Float.ofNat size)), w.changeItems l (· ++ arguments))

/-- The texts of the items with a separator between them. -/
def joinItems (l : Ref .list) (separator : Option Value) : Script Value := do
  let separator ← match separator with
    | none | some .undefined => pure ","
    | some v => Run.textOf v
  let items ← Run.read (·.items l)
  return .text (Text.joined separator (← Run.itemTexts items.toList))

/-- Call a callback with each of the given items, its index, and the list; the results are added
to `results`. -/
def visit (call : CallSemantics) (callback : Value) (description : String) (l : Ref .list) :
    Nat → Array Value → List Value → Script (Array Value)
  | _, results, [] => return results
  | i, results, v :: rest => do
    let r ← callValue call callback description .undefined #[v, .number (Float.ofNat i), .list l]
    visit call callback description l (i + 1) (results.push r) rest

/-- The index of the first item that is strictly equal to a value. -/
def indexOfItem (l : Ref .list) (needle : Value) : Script Value := do
  let items ← Run.read (·.items l)
  return match items.toList.findIdx? fun v => v.strictEquals needle with
    | some i => .number (Float.ofNat i)
    | none => .number (-1.0)

/-- **Call a method of a list.** -/
def invoke (call : CallSemantics) (m : ListMethod) (l : Ref .list) (arguments : Array Value) :
    Script Value :=
  let first := (arguments[0]?).getD .undefined
  match m with
  | .push => pushAll l arguments
  | .join => joinItems l arguments[0]?
  | .map => do
    let items ← Run.read (·.items l)
    let results ← visit call first "map callback" l 0 #[] items.toList
    return .list (← Run.newList results)
  | .forEach => do
    let items ← Run.read (·.items l)
    let _ ← visit call first "forEach callback" l 0 #[] items.toList
    return .undefined
  | .indexOf => indexOfItem l first

end ListMethod

/-- The least position at which one text goes on with another, in characters; minus one if there
is none. -/
def textIndexOf (s needle : String) : Float :=
  match Text.position? needle.toList s.toList with
  | some i => Float.ofNat i
  | none => -1.0

/-- **Call a method of a text.** -/
def TextMethod.invoke (m : TextMethod) (s : String) (arguments : Array Value) : Script Value :=
  match m with
  | .toUpperCase => return .text (Text.upper s)
  | .toLowerCase => return .text (Text.lower s)
  | .trim => return .text (Text.trim s)
  | .indexOf =>
    match arguments[0]? with
    | none => return .number (-1.0)
    | some v => do return .number (textIndexOf s (← Run.textOf v))

/-- Write a line to the console. -/
def ConsoleMethod.invoke (m : ConsoleMethod) (script : String) (arguments : Array Value) :
    Script Value := do
  let texts ← Run.consoleTexts arguments.toList
  Run.log (.console m.level script (Text.joined " " texts))
  return .undefined

/-- The methods of the console, in order. -/
def consoleMethods : List ConsoleMethod := [
  ⟨"log", .info⟩, ⟨"info", .info⟩, ⟨"warn", .warn⟩, ⟨"error", .error⟩, ⟨"debug", .debug⟩,
  ⟨"trace", .trace⟩]

/-- Call a function of the host, which is logged with what it was given. -/
def HostFunction.invoke (h : HostFunction) (this : Value) (arguments : Array Value) :
    Script Value := do
  let seenThis ← Run.pictureOf this
  let seen ← Run.read fun w => arguments.toList.map fun v => v.picture w
  Run.log (.called h.name seenThis seen)
  match h.fails, h.returns with
  | some e, _ => Run.fail e
  | none, some v => return v
  | none, none => return (arguments[0]?).getD .undefined

end ScriptModules
