import ScriptModules.Text.Case
import ScriptModules.Text.ShapelessTable

/-!
# Quoted texts

A text between quotes in which every character can be made out: quotes and backslashes are
escaped, line ends and tabs have letters, and characters without a shape are written by number.
-/

namespace ScriptModules.Text

/-- Whether a character is written by number. -/
def isShapeless (c : Char) : Bool :=
  if c.toNat < 0x80 then c.toNat < 0x20 || c.toNat == 0x7F else inRuns shapelessRuns c.toNat

/-- A character inside a quoted text. -/
def quotedChar (c : Char) : List Char :=
  if c.toNat = 0 then ['\\', '0']
  else if c = '\t' then ['\\', 't']
  else if c = '\r' then ['\\', 'r']
  else if c = '\n' then ['\\', 'n']
  else if c = '"' then ['\\', '"']
  else if c = '\\' then ['\\', '\\']
  else if isShapeless c then
    '\\' :: 'u' :: '\x7b' :: Nat.toDigits 16 c.toNat ++ ['\x7d']
  else [c]

/-- A text between quotes. -/
def quoted (s : String) : String := String.ofList ('"' :: s.toList.flatMap quotedChar ++ ['"'])

end ScriptModules.Text
