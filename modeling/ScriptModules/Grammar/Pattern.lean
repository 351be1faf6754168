/-!
# Grammars as data

A grammar gives each rule a pattern with ordered choice. Patterns are plain data, so that the
matcher and the laws about it see every rule in the same few shapes. Blank between tokens is a
pattern of its own: `seq` and `many` put it between the parts.
-/

namespace ScriptModules.Grammar

/-- Sets of characters. -/
inductive CharClass where
  | digit | nameStart | namePart
  | oneOf (cs : List Char)
  | noneOf (cs : List Char)

/-- A letter of ASCII. -/
def isLetter (c : Char) : Bool := ('a' ≤ c && c ≤ 'z') || ('A' ≤ c && c ≤ 'Z')

/-- A digit of ASCII. -/
def isDigit (c : Char) : Bool := '0' ≤ c && c ≤ '9'

/-- Whether `c` is in the class. -/
def CharClass.has (k : CharClass) (c : Char) : Bool :=
  match k with
  | .digit => isDigit c
  | .nameStart => isLetter c || c == '_' || c == '$'
  | .namePart => isLetter c || isDigit c || c == '_' || c == '$'
  | .oneOf cs => cs.contains c
  | .noneOf cs => !cs.contains c

/-- A pattern over the rules `ρ`. -/
inductive Pattern (ρ : Type) where
  /-- What the rule matches. -/
  | rule (r : ρ)
  /-- Exactly these characters. -/
  | text (cs : List Char)
  /-- One character of the class. -/
  | char (k : CharClass)
  /-- Blank between tokens, possibly none; inside a token nothing. -/
  | blank
  /-- Nothing, at the end of the text. -/
  | finish
  /-- One pattern directly behind the other. -/
  | cat (p q : Pattern ρ)
  /-- The second pattern only if the first fails. -/
  | alt (p q : Pattern ρ)
  /-- The pattern, or nothing if it fails. -/
  | optional (p : Pattern ρ)
  /-- The pattern as often as it matches. -/
  | star (p : Pattern ρ)
  /-- Nothing, where the pattern fails. -/
  | not (p : Pattern ρ)

namespace Pattern

variable {ρ : Type}

/-- One pattern behind the other, with blank between. -/
def next (p q : Pattern ρ) : Pattern ρ := cat p (cat blank q)

/-- The patterns one behind the other, with blank between. -/
def seq (p : Pattern ρ) : List (Pattern ρ) → Pattern ρ
  | [] => p
  | q :: rest => next p (seq q rest)

/-- The first of the patterns that matches. -/
def first (p : Pattern ρ) : List (Pattern ρ) → Pattern ρ
  | [] => p
  | q :: rest => alt p (first q rest)

/-- The pattern any number of times, with blank between. -/
def many (p : Pattern ρ) : Pattern ρ := optional (cat p (star (cat blank p)))

/-- The pattern once or more, with blank between. -/
def many1 (p : Pattern ρ) : Pattern ρ := next p (many p)

/-- The characters of a literal text. -/
def lit (s : String) : Pattern ρ := text s.toList

/-- A word that does not go on. -/
def keyword (s : String) : Pattern ρ := next (lit s) (not (char .namePart))

/-- Items with commas between. -/
def commas (p : Pattern ρ) : Pattern ρ := next p (many (next (lit ",") p))

end Pattern

/-- What a rule does besides matching its pattern. -/
inductive Mode where
  /-- Leaves a node, and blank may stand between its parts. -/
  | plain
  /-- Leaves no node and is not reported. -/
  | silent
  /-- Leaves a node without children; its parts are neither reported nor separated by blank. -/
  | atomic
  /-- Leaves a node with children; no blank between its parts. -/
  | compound
deriving DecidableEq, Repr

/-- A grammar: what each of the rules `ρ` matches and how. -/
structure RuleSet (ρ : Type) where
  body : ρ → Pattern ρ
  mode : ρ → Mode

end ScriptModules.Grammar
