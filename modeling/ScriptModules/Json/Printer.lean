import ScriptModules.Json.Basic
import ScriptModules.Number.Text
import ScriptModules.Text.Search

/-!
# Writing JSON

Two layouts of one value: compact, and indented by two spaces a level with an item a line. Of the
characters of a text only quotes, backslashes and control characters are escaped.
-/

namespace ScriptModules.Json

/-- The digit of base 16 for a number below 16. -/
def hexDigit (n : Nat) : Char := Nat.digitChar n

/-- A character inside a written text. -/
def escaped (c : Char) : List Char :=
  if c = '"' then ['\\', '"']
  else if c = '\\' then ['\\', '\\']
  else if c.toNat = 8 then ['\\', 'b']
  else if c.toNat = 9 then ['\\', 't']
  else if c.toNat = 10 then ['\\', 'n']
  else if c.toNat = 12 then ['\\', 'f']
  else if c.toNat = 13 then ['\\', 'r']
  else if c.toNat < 32 then ['\\', 'u', '0', '0', hexDigit (c.toNat / 16), hexDigit (c.toNat % 16)]
  else [c]

/-- A text between quotes. -/
def quote (s : String) : String := String.ofList ('"' :: s.toList.flatMap escaped ++ ['"'])

/-- An integer in decimal. -/
def integerText (i : Int) : String := Number.signed (i < 0) (Number.digitsText i.natAbs)

mutual

/-- The value without any blank. -/
def compact : Json → String
  | .null => "null"
  | .boolean b => if b then "true" else "false"
  | .integer i => integerText i
  | .float x => Number.jsonText x
  | .text s => quote s
  | .list items => "[" ++ Text.joined "," (compactItems items) ++ "]"
  | .object fields => "\x7b" ++ Text.joined "," (compactFields fields) ++ "\x7d"

/-- The items of a list, each without any blank. -/
def compactItems : List Json → List String
  | [] => []
  | item :: rest => compact item :: compactItems rest

/-- The fields of an object, each without any blank. -/
def compactFields : List (String × Json) → List String
  | [] => []
  | (name, value) :: rest => (quote name ++ ":" ++ compact value) :: compactFields rest

end

/-- A new line at the given level. -/
def newLine (level : Nat) : String := String.ofList ('\n' :: List.replicate (2 * level) ' ')

mutual

/-- The value laid out from the given level on; empty lists and objects stay on their line. -/
def indented (level : Nat) : Json → String
  | .list [] => "[]"
  | .list (item :: rest) =>
    "[" ++ newLine (level + 1) ++
      Text.joined ("," ++ newLine (level + 1)) (indented (level + 1) item :: indentedItems (level + 1) rest) ++
      newLine level ++ "]"
  | .object [] => "\x7b\x7d"
  | .object (field :: rest) =>
    "\x7b" ++ newLine (level + 1) ++
      Text.joined ("," ++ newLine (level + 1))
        ((quote field.1 ++ ": " ++ indented (level + 1) field.2) :: indentedFields (level + 1) rest) ++
      newLine level ++ "\x7d"
  | .null => "null"
  | .boolean b => if b then "true" else "false"
  | .integer i => integerText i
  | .float x => Number.jsonText x
  | .text s => quote s

/-- The items of a list, each laid out from the given level on. -/
def indentedItems (level : Nat) : List Json → List String
  | [] => []
  | item :: rest => indented level item :: indentedItems level rest

/-- The fields of an object, each laid out from the given level on. -/
def indentedFields (level : Nat) : List (String × Json) → List String
  | [] => []
  | (name, value) :: rest =>
    (quote name ++ ": " ++ indented level value) :: indentedFields level rest

end

/-- The value over several lines. -/
def pretty (j : Json) : String := indented 0 j

end ScriptModules.Json
