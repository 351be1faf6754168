/-!
# Searching texts

Positions in a text count characters.
-/

namespace ScriptModules.Text

/-- The least position from which `s` goes on with `needle`. -/
def position? (needle : List Char) : List Char → Option Nat
  | [] => if needle.isEmpty then some 0 else none
  | c :: rest =>
    if needle.isPrefixOf (c :: rest) then some 0 else (position? needle rest).map (· + 1)

/-- The texts of a list with `separator` between neighbours. -/
def joined (separator : String) (parts : List String) : String := separator.intercalate parts

end ScriptModules.Text
