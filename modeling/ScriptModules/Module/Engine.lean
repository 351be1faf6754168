import ScriptModules.Collection.OrderedMap
import ScriptModules.Eval.Expression
import ScriptModules.Syntax.Parse

/-!
# Script engines

An engine evaluates the text of a script against bindings. A text that does not parse is the fault
of the script, and the fault names it. A registry hands engines out by name; what is registered
again under a name keeps its place in the order.
-/

namespace ScriptModules

/-- Parse the text of a script; a fault names the script. -/
def Program.compile (script text : String) : Except ScriptError Program :=
  match Program.parse text with
  | .ok p => .ok p
  | .error fault => .error (.badSyntax (fault.message text ++ " in " ++ script))

namespace Engine

/-- The name an engine goes by. -/
def name : Engine → String
  | compiling => "js"
  | direct => "direct"

/-- Whether an engine can parse ahead of evaluation. -/
def canCompile : Engine → Bool
  | compiling => true
  | direct => false

/-- **Evaluate the text of a script** against bindings. The direct engine writes into the log that
it was asked to. -/
def evaluate (call : CallSemantics) (e : Engine) (script text : String) (b : Bindings) :
    Script Value := do
  if ¬ e.canCompile then Run.log (.direct script)
  let p ← Run.ofExcept (Program.compile script text)
  p.evaluate call b

/-- The registry of an ordinary host: the compiling engine under two names. -/
def registry : OrderedMap Engine := .ofList [("js", compiling), ("javascript", compiling)]

end Engine

end ScriptModules
