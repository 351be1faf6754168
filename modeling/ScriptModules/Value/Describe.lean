import ScriptModules.Text.Quoted
import ScriptModules.Value.Convert

/-!
# Descriptions of values

A short text that tells the kind of a value and a little of what is in it.
-/

namespace ScriptModules

/-- The state of a container in words. -/
def Container.describe : Container → String
  | .pending ls => s!"AsyncContainer(pending, {ls.length} listeners)"
  | .resolved _ => "AsyncContainer(completed)"

/-- The kind of a value and a little of what is in it. -/
def Value.describe (w : World) : Value → String
  | undefined => "ScriptValue::Undefined"
  | null => "ScriptValue::Null"
  | boolean b => "ScriptValue::Boolean(" ++ (if b then "true" else "false") ++ ")"
  | number x => "ScriptValue::Number(" ++ Number.described x ++ ")"
  | text s => "ScriptValue::String(" ++ Text.quoted s ++ ")"
  | list l => s!"ScriptValue::List(len={(w.items l).size})"
  | object o =>
    "ScriptValue::Object([" ++
      Text.joined ", " ((w.object o).properties.keys.map Text.quoted) ++ "])"
  | function f => "ScriptValue::Function(" ++ w.functionName f ++ ")"
  | container c => "ScriptValue::Async(" ++ (w.container c).describe ++ ")"

end ScriptModules
