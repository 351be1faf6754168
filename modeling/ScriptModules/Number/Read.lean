import ScriptModules.Number.Binary64

/-!
# Reading numbers

A decimal is read as digits and a power of ten, and rounded to the nearest float. A text that is
no decimal, and none of the words for infinity and not-a-number, has no value.
-/

namespace ScriptModules.Number

/-- The value of a decimal digit. -/
def digitValue (c : Char) : Nat := c.toNat - '0'.toNat

/-- Whether `c` is a decimal digit of ASCII. -/
def isDigit (c : Char) : Bool := '0' ≤ c && c ≤ '9'

/-- The largest whole number of 64 bits. -/
def largestWord : Nat := 18446744073709551615

/-- The number written by a run of digits. -/
def digitsValue (ds : List Char) : Nat := ds.foldl (fun n c => 10 * n + digitValue c) 0

/-- The digits at the head of a text, and what follows them. -/
def takeDigits (s : List Char) : List Char × List Char := (s.takeWhile isDigit, s.dropWhile isDigit)

/-- The float nearest to `± digits · 10 ^ exponent`. Exponents that put the value beyond every
float, or below half of the least one, are cut off before any power is formed. -/
def ofDecimal (negative : Bool) (digits : Nat) (exponent : Int) : Float :=
  let size : Int := Nat.log2 digits / 3 + 1
  let magnitude : Float :=
    if digits = 0 then 0.0
    else if 400 < exponent then 1.0 / 0.0
    else if exponent + size < -400 then 0.0
    else Float.ofScientific digits (exponent < 0) exponent.natAbs
  if negative then -magnitude else magnitude

/-- A sign at the head of a text: whether it is a minus, and what follows it. -/
def takeSign : List Char → Bool × List Char
  | '-' :: rest => (true, rest)
  | '+' :: rest => (false, rest)
  | rest => (false, rest)

/-- An optional exponent that ends the text: none is zero, one without digits is refused. -/
def exponent? : List Char → Option Int
  | [] => some 0
  | c :: rest =>
    if c = 'e' ∨ c = 'E' then
      let (negative, ds) := takeSign rest
      let (ds, rest) := takeDigits ds
      if ds.isEmpty ∨ ¬ rest.isEmpty then none
      else some (if negative then -(digitsValue ds : Int) else digitsValue ds)
    else none

/-- The decimal of an unsigned text: digits with an optional point, at least one digit, and an
optional exponent. -/
def unsigned? (s : List Char) : Option (Nat × Int) :=
  let (before, rest) := takeDigits s
  let (after, rest) := match rest with
    | '.' :: rest => takeDigits rest
    | _ => ([], rest)
  if before.isEmpty ∧ after.isEmpty then none
  else (exponent? rest).map fun e => (digitsValue (before ++ after), e - after.length)

/-- **The float that a text stands for:** an optional sign, then a decimal, or `inf`, `infinity` or
`nan` in letters of either case. -/
def read? (s : List Char) : Option Float :=
  let (negative, body) := takeSign s
  let word := body.map Char.toLower
  let sign (x : Float) : Float := if negative then -x else x
  if word = "inf".toList ∨ word = "infinity".toList then some (sign (1.0 / 0.0))
  else if word = "nan".toList then some nan
  else (unsigned? body).map fun (digits, e) => ofDecimal negative digits e

end ScriptModules.Number
