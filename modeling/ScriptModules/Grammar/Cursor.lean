/-!
# Places in a text

A cursor is a place in a text: the number of characters before it and the characters behind it.
Blank between tokens is any run of spaces, line ends, tabs, byte-order marks and complete
comments; a comment that is never closed is no blank.
-/

namespace ScriptModules.Grammar

/-- A place in a text. -/
structure Cursor where
  offset : Nat
  rest : List Char

/-- The beginning of a text. -/
def Cursor.start (s : List Char) : Cursor := ⟨0, s⟩

/-- The place behind `cs`, if the text goes on with it. -/
def Cursor.strip? (c : Cursor) (cs : List Char) : Option Cursor :=
  if cs.isPrefixOf c.rest then some ⟨c.offset + cs.length, c.rest.drop cs.length⟩ else none

/-- Characters that separate tokens. -/
def isSpace (c : Char) : Bool :=
  c == ' ' || c == '\t' || c == '\r' || c == '\n' || c == Char.ofNat 0xFEFF

mutual

/-- The place behind the blank that begins here. -/
def skipBlank : Nat → List Char → Cursor
  | n, '/' :: '/' :: rest => skipLine (n + 2) rest
  | n, '/' :: '*' :: rest => skipBlock ⟨n, '/' :: '*' :: rest⟩ (n + 2) rest
  | n, c :: rest => if isSpace c then skipBlank (n + 1) rest else ⟨n, c :: rest⟩
  | n, [] => ⟨n, []⟩

/-- The place behind the blank, from inside a comment that ends with its line. -/
def skipLine : Nat → List Char → Cursor
  | n, '\n' :: rest => skipBlank (n + 1) rest
  | n, _ :: rest => skipLine (n + 1) rest
  | n, [] => ⟨n, []⟩

/-- The place behind the blank, from inside a comment between `/*` and `*/` that began at `start`. -/
def skipBlock (start : Cursor) : Nat → List Char → Cursor
  | n, '*' :: '/' :: rest => skipBlank (n + 2) rest
  | n, _ :: rest => skipBlock start (n + 1) rest
  | _, [] => start

end

/-- The place behind the blank that begins here. -/
def Cursor.skipBlank (c : Cursor) : Cursor := Grammar.skipBlank c.offset c.rest

/-- A line and a column, both counted from one. -/
structure Position where
  line : Nat
  column : Nat
deriving DecidableEq, Repr

/-- The position behind the given characters. -/
def Position.after (p : Position) : List Char → Position
  | [] => p
  | c :: rest => after (if c = '\n' then ⟨p.line + 1, 1⟩ else ⟨p.line, p.column + 1⟩) rest

/-- The position of the `offset`-th character of a text. -/
def Position.ofOffset (text : List Char) (offset : Nat) : Position :=
  Position.after ⟨1, 1⟩ (text.take offset)

end ScriptModules.Grammar
