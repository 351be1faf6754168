/-!
# Escapes in string literals

A backslash gives the character behind it another meaning: a line end, a tab, …, or the character
with a given number. Any other character stands for itself.
-/

namespace ScriptModules.Escape

/-- The value of a digit of base 16. -/
def hexValue? (c : Char) : Option Nat :=
  if '0' ≤ c ∧ c ≤ '9' then some (c.toNat - '0'.toNat)
  else if 'a' ≤ c ∧ c ≤ 'f' then some (c.toNat - 'a'.toNat + 10)
  else if 'A' ≤ c ∧ c ≤ 'F' then some (c.toNat - 'A'.toNat + 10)
  else none

/-- The number written by digits of base 16. -/
def hexValueOf? : List Char → Option Nat
  | ds => ds.foldlM (fun n c => (hexValue? c).map (16 * n + ·)) 0

/-- The number written by four characters: four digits, or a plus sign and three digits. -/
def number? (a b c d : Char) : Option Nat :=
  if a = '+' then hexValueOf? [b, c, d] else hexValueOf? [a, b, c, d]

/-- The character with the given number, unless the number is that of a surrogate. -/
def char? (n : Nat) : Option Char :=
  if 0xD800 ≤ n ∧ n ≤ 0xDFFF then none else some (Char.ofNat n)

/-- The character that a backslash and `c` stand for, for any `c` but `u`. -/
def simple (c : Char) : Char :=
  if c = 'n' then '\n'
  else if c = 't' then '\t'
  else if c = 'r' then '\r'
  else if c = 'b' then Char.ofNat 8
  else if c = 'f' then Char.ofNat 12
  else if c = 'v' then Char.ofNat 11
  else if c = '0' then Char.ofNat 0
  else c

/-- **The text that the characters between the quotes stand for.** None if a backslash ends them,
or if a `u` behind a backslash is not followed by the number of a character. -/
def decode : List Char → Option (List Char)
  | [] => some []
  | '\\' :: 'u' :: a :: b :: c :: d :: rest => do
    let n ← number? a b c d
    let x ← char? n
    let xs ← decode rest
    return x :: xs
  | '\\' :: 'u' :: _ => none
  | '\\' :: x :: rest => (decode rest).map (simple x :: ·)
  | ['\\'] => none
  | x :: rest => (decode rest).map (x :: ·)

end ScriptModules.Escape
