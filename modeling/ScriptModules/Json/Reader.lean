import ScriptModules.Json.Basic
import ScriptModules.Number.Read

/-!
# Reading JSON

A strict reader of one value that must fill its text. It tells a text that ended too early from
one that is wrong. Lists and objects may be nested 127 deep.

A number keeps the leading digits that fit into 64 bits; the others count as powers of ten, and
the power is applied in floating point. So a long number may miss the nearest float, and one
beyond the largest float is refused.
-/

namespace ScriptModules.Json

/-- Why a text is no JSON value. -/
inductive Fault where
  /-- The text ended too early. -/
  | truncated
  /-- The text is wrong at some place. -/
  | malformed
deriving DecidableEq, Repr

/-- Whether `c` may stand between the tokens. -/
def isSpace (c : Char) : Bool := c = ' ' || c = '\n' || c = '\t' || c = '\r'

/-- A text from its first token on. -/
def skipSpace (s : List Char) : List Char := s.dropWhile isSpace

/-- Read the given letters. -/
def word : List Char → List Char → Except Fault (List Char)
  | [], s => .ok s
  | _ :: _, [] => .error .truncated
  | e :: expected, c :: rest => if c = e then word expected rest else .error .malformed

/-! ### Texts -/

/-- The value of a digit of base 16. -/
def hexValue? (c : Char) : Option Nat :=
  if '0' ≤ c ∧ c ≤ '9' then some (c.toNat - '0'.toNat)
  else if 'a' ≤ c ∧ c ≤ 'f' then some (c.toNat - 'a'.toNat + 10)
  else if 'A' ≤ c ∧ c ≤ 'F' then some (c.toNat - 'A'.toNat + 10)
  else none

/-- The number of bytes of a text. -/
def byteCount (s : List Char) : Nat := (String.ofList s).utf8ByteSize

/-- Four digits of base 16; a text of fewer than four bytes has ended too early. -/
def hexFour : List Char → Except Fault (Nat × List Char)
  | a :: b :: c :: d :: rest =>
    match hexValue? a, hexValue? b, hexValue? c, hexValue? d with
    | some a, some b, some c, some d => .ok (((a * 16 + b) * 16 + c) * 16 + d, rest)
    | _, _, _, _ => .error .malformed
  | s => .error (if byteCount s < 4 then .truncated else .malformed)

/-- The letter `expected` at the head of a text. -/
def letter (expected : Char) : List Char → Except Fault (List Char)
  | [] => .error .truncated
  | c :: rest => if c = expected then .ok rest else .error .malformed

/-- A character given by its number; one outside the basic plane takes two escapes. -/
def unicodeEscape (s : List Char) : Except Fault (Char × List Char) := do
  let (n, s) ← hexFour s
  if 0xDC00 ≤ n ∧ n ≤ 0xDFFF then .error .malformed
  else if n < 0xD800 ∨ 0xDFFF < n then .ok (Char.ofNat n, s)
  else
    let s ← letter '\\' s
    let s ← letter 'u' s
    let (low, s) ← hexFour s
    if low < 0xDC00 ∨ 0xDFFF < low then .error .malformed
    else .ok (Char.ofNat (0x10000 + (n - 0xD800) * 0x400 + (low - 0xDC00)), s)

/-- What follows a backslash. -/
def escape : List Char → Except Fault (Char × List Char)
  | [] => .error .truncated
  | c :: rest =>
    match c with
    | '"' => .ok ('"', rest)
    | '\\' => .ok ('\\', rest)
    | '/' => .ok ('/', rest)
    | 'b' => .ok (Char.ofNat 8, rest)
    | 'f' => .ok (Char.ofNat 12, rest)
    | 'n' => .ok ('\n', rest)
    | 'r' => .ok ('\r', rest)
    | 't' => .ok ('\t', rest)
    | 'u' => unicodeEscape rest
    | _ => .error .malformed

/-- The text up to its closing quote, after the characters `read` (last first). -/
def stringBody : Nat → List Char → List Char → Except Fault (String × List Char)
  | 0, _, _ => .error .truncated
  | _ + 1, _, [] => .error .truncated
  | fuel + 1, read, c :: rest =>
    if c = '"' then .ok (String.ofList read.reverse, rest)
    else if c = '\\' then
      match escape rest with
      | .error e => .error e
      | .ok (c, rest) => stringBody fuel (c :: read) rest
    else if c.toNat < 0x20 then .error .malformed
    else stringBody fuel (c :: read) rest

/-! ### Numbers -/

/-- Append digits to a number as long as it fits into 64 bits; what is left of the digits. -/
def appendDigits (n : Nat) : List Char → Nat × List Char
  | [] => (n, [])
  | c :: rest =>
    let m := 10 * n + Number.digitValue c
    if Number.largestWord < m then (n, c :: rest) else appendDigits m rest

/-- Apply a power of ten in floating point, in steps of at most 308 places; none if the result is
beyond every float. Three steps bring every 64-bit number to zero. -/
def scaled : Nat → Float → Int → Option Float
  | 0, x, _ => some x
  | fuel + 1, x, e =>
    if e.natAbs ≤ 308 then
      let power := Float.ofScientific 1 false e.natAbs
      let y := if 0 ≤ e then x * power else x / power
      if y.isInf then none else some y
    else if x == 0.0 then some x
    else if 0 ≤ e then none
    else scaled fuel (x / 1e308) (e + 308)

/-- The float of a sign, a number of 64 bits and a power of ten. -/
def floatOf (negative : Bool) (n : Nat) (e : Int) : Except Fault Json :=
  match scaled 4 (Float.ofNat n) e with
  | some x => .ok (.float (if negative then -x else x))
  | none => .error .malformed

/-- An exponent from its first character after the letter on. Exponents of more than 31 bits leave
zero, or are refused. -/
def exponentPart (negative : Bool) (n : Nat) (before : Int) (s : List Char) : Except Fault (Json × List Char) := do
  let (minus, s) := Number.takeSign s
  let (ds, rest) := Number.takeDigits s
  if ds.isEmpty then .error (if s.isEmpty then .truncated else .malformed)
  else
    let e := Number.digitsValue ds
    if 2147483648 ≤ e then
      if n = 0 ∨ minus then .ok (.float (if negative then -0.0 else 0.0), rest) else .error .malformed
    else
      let j ← floatOf negative n (before + (if minus then -(e : Int) else e))
      .ok (j, rest)

/-- Whether an exponent begins here, and what follows its letter. -/
def takeExponentLetter : List Char → Option (List Char)
  | c :: rest => if c = 'e' ∨ c = 'E' then some rest else none
  | [] => none

/-- A fraction from its first digit on. -/
def fractionPart (negative : Bool) (n : Nat) (before : Int) (s : List Char) : Except Fault (Json × List Char) := do
  let (ds, rest) := Number.takeDigits s
  if ds.isEmpty then .error (if s.isEmpty then .truncated else .malformed)
  else
    let (n, left) := appendDigits n ds
    let e := before - ((ds.length : Int) - left.length)
    match takeExponentLetter rest with
    | some rest => exponentPart negative n e rest
    | none => do
      let j ← floatOf negative n e
      .ok (j, rest)

/-- A whole number is an integer if it fits into 64 bits, with its sign; minus zero is a float. -/
def wholeNumber (negative : Bool) (n : Nat) : Json :=
  if negative then
    if 0 < n ∧ n ≤ 9223372036854775808 then .integer (-n) else .float (-(Float.ofNat n))
  else .integer n

/-- A number after its sign. No digit follows a leading zero. -/
def number (negative : Bool) (s : List Char) : Except Fault (Json × List Char) :=
  let (ds, rest) := Number.takeDigits s
  match ds with
  | [] => .error (if s.isEmpty then .truncated else .malformed)
  | d :: more =>
    if d = '0' ∧ ¬ more.isEmpty then .error .malformed
    else
      let (n, left) := appendDigits 0 ds
      match rest with
      | '.' :: rest => fractionPart negative n left.length rest
      | rest =>
        match takeExponentLetter rest with
        | some rest => exponentPart negative n left.length rest
        | none =>
          if left.isEmpty then .ok (wholeNumber negative n, rest)
          else do
            let j ← floatOf negative n left.length
            .ok (j, rest)

/-! ### Lists and objects -/

/-- What comes next inside brackets: their end, or one more piece. -/
inductive Next where
  | done (rest : List Char)
  | more (rest : List Char)

/-- What comes next in a list, from behind the bracket (`first`) or behind an item on. -/
def nextItem (first : Bool) (s : List Char) : Except Fault Next :=
  match skipSpace s with
  | [] => .error .truncated
  | c :: rest =>
    if c = ']' then .ok (.done rest)
    else if first then .ok (.more (c :: rest))
    else if c = ',' then
      match skipSpace rest with
      | [] => .error .truncated
      | c :: rest => if c = ']' then .error .malformed else .ok (.more (c :: rest))
    else .error .malformed

/-- What comes next in an object; `more` stands behind the opening quote of a name. -/
def nextField (first : Bool) (s : List Char) : Except Fault Next :=
  match skipSpace s with
  | [] => .error .truncated
  | c :: rest =>
    if c = '}' then .ok (.done rest)
    else if first then (if c = '"' then .ok (.more rest) else .error .malformed)
    else if c = ',' then
      match skipSpace rest with
      | [] => .error .truncated
      | c :: rest => if c = '"' then .ok (.more rest) else .error .malformed
    else .error .malformed

/-- The colon behind a name. -/
def colon (s : List Char) : Except Fault (List Char) := letter ':' (skipSpace s)

mutual

/-- One value; `depth` is the number of brackets that may still be opened, plus one. -/
def value : Nat → Nat → List Char → Except Fault (Json × List Char)
  | 0, _, _ => .error .truncated
  | fuel + 1, depth, s =>
    match skipSpace s with
    | [] => .error .truncated
    | c :: rest =>
      if c = 'n' then (word "ull".toList rest).map (Json.null, ·)
      else if c = 't' then (word "rue".toList rest).map (Json.boolean true, ·)
      else if c = 'f' then (word "alse".toList rest).map (Json.boolean false, ·)
      else if c = '"' then (stringBody fuel [] rest).map fun (t, rest) => (.text t, rest)
      else if c = '-' then number true rest
      else if Number.isDigit c then number false (c :: rest)
      else if c = '[' then
        if depth ≤ 1 then .error .malformed
        else (items fuel (depth - 1) true [] rest).map fun (js, rest) => (.list js, rest)
      else if c = '{' then
        if depth ≤ 1 then .error .malformed
        else (fields fuel (depth - 1) true [] rest).map fun (fs, rest) => (.object fs, rest)
      else .error .malformed

/-- The items up to the closing bracket, after the items `read` (last first). -/
def items : Nat → Nat → Bool → List Json → List Char → Except Fault (List Json × List Char)
  | 0, _, _, _, _ => .error .truncated
  | fuel + 1, depth, first, read, s =>
    match nextItem first s with
    | .error e => .error e
    | .ok (.done rest) => .ok (read.reverse, rest)
    | .ok (.more rest) =>
      match value fuel depth rest with
      | .error e => .error e
      | .ok (j, rest) => items fuel depth false (j :: read) rest

/-- The fields up to the closing brace, added to the sorted fields `read`. -/
def fields : Nat → Nat → Bool → List (String × Json) → List Char → Except Fault (List (String × Json) × List Char)
  | 0, _, _, _, _ => .error .truncated
  | fuel + 1, depth, first, read, s =>
    match nextField first s with
    | .error e => .error e
    | .ok (.done rest) => .ok (read, rest)
    | .ok (.more rest) =>
      match stringBody fuel [] rest with
      | .error e => .error e
      | .ok (name, rest) =>
        match colon rest with
        | .error e => .error e
        | .ok rest =>
          match value fuel depth rest with
          | .error e => .error e
          | .ok (j, rest) => fields fuel depth false (putField name j read) rest

end

/-- The number of brackets that may be open at a time, plus one. -/
def depthLimit : Nat := 128

/-- Nothing but space. -/
def atEnd (s : List Char) : Except Fault Unit :=
  if (skipSpace s).isEmpty then .ok () else .error .malformed

/-- **The JSON value written in a text,** which it must fill. -/
def read (s : String) : Except Fault Json := do
  let chars := s.toList
  let (j, rest) ← value (2 * chars.length + 2) depthLimit chars
  atEnd rest
  .ok j

end ScriptModules.Json
