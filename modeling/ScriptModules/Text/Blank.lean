/-!
# Blank characters

The characters with the Unicode property White_Space, and texts freed of them at both ends. The
byte-order mark is not one of them.
-/

namespace ScriptModules.Text

/-- Whether `c` has the property White_Space. -/
def isBlank (c : Char) : Bool :=
  let n := c.toNat
  (9 ≤ n && n ≤ 13) || n == 0x20 || n == 0x85 || n == 0xA0 || n == 0x1680 ||
    (0x2000 ≤ n && n ≤ 0x200A) || n == 0x2028 || n == 0x2029 || n == 0x202F || n == 0x205F ||
    n == 0x3000

/-- `s` without its blank characters at the end. -/
def trimEnd (s : List Char) : List Char := (s.reverse.dropWhile isBlank).reverse

/-- `s` without its blank characters at both ends. -/
def trimChars (s : List Char) : List Char := trimEnd (s.dropWhile isBlank)

/-- `s` without its blank characters at both ends. -/
def trim (s : String) : String := String.ofList (trimChars s.toList)

/-- Every white-space character of ASCII is blank. -/
theorem isBlank_of_isWhitespace {c : Char} (h : c.isWhitespace = true) : isBlank c = true := by
  simp only [Char.isWhitespace, Bool.or_eq_true, decide_eq_true_eq] at h
  rcases h with ((rfl | rfl) | rfl) | rfl <;> decide

end ScriptModules.Text
