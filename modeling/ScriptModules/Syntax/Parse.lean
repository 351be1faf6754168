import ScriptModules.Syntax.Build
import ScriptModules.Text.Search

/-!
# Parsing scripts

A text is matched against the grammar and the nodes are built into a tree. A text that the
grammar refuses is described by the rules tried at the furthest place that any rule reached; a
fault of the tree by the construct it shows in.
-/

namespace ScriptModules

open Grammar (Rule Cursor Attempts Atomicity Verdict Position)

/-- Enough fuel to match a text of the given length: between two characters no more calls of the
matcher can be open than all patterns of all rules together have parts. -/
def matchFuel (length : Nat) : Nat := 2000 * (length + 1)

/-- Match a whole text against the grammar. -/
def matchScript (s : List Char) : Verdict Rule × Attempts Rule :=
  Grammar.script.run (matchFuel s.length) .loose (.rule .script) (Cursor.start s) {}

/-- The rules attempted, each once, in the order of the grammar. -/
def expectedRules (attempted : List Rule) : List Rule := Rule.all.filter attempted.contains

/-- **The program written in a text.** -/
def Program.parse (s : String) : Except SyntaxFault Program :=
  match matchScript s.toList with
  | (.matched _ [n], _) => (Stmt.ofNodes n.children).map (⟨·⟩)
  | (.failed, a) => .error ⟨.unexpected (expectedRules a.rules), a.offset⟩
  | _ => .error ⟨.malformed, 0⟩

/-- What a syntax error says before its place. -/
def SyntaxCause.message : SyntaxCause → String
  | .unexpected rules => "expected one of [" ++ Text.joined ", " (rules.map Rule.name) ++ "]"
  | .missingInitializer => "Missing initializer in const declaration"
  | .invalidTarget => "Invalid assignment target"
  | .invalidEscape => "Invalid escape sequence"
  | .malformed => "Incomplete syntax"

/-- The text of a syntax error in the given source. -/
def SyntaxFault.message (f : SyntaxFault) (source : String) : String :=
  let p := Position.ofOffset source.toList f.offset
  f.cause.message ++ s!" at line {p.line}, column {p.column}"

end ScriptModules
