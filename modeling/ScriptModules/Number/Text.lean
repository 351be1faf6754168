import ScriptModules.Number.Shortest

/-!
# Numbers as text

Three written forms share the shortest digits. The text of a script number writes a whole number
below `10 ^ 21` exactly and every other number positionally. The form used in descriptions of
values is positional throughout. The form of JSON changes to an exponent outside `10 ^ -5` to
`10 ^ 15` and keeps a point.
-/

namespace ScriptModules.Number

/-- The decimal digits of `n`. -/
def digitsText (n : Nat) : String := String.ofList (Nat.toDigits 10 n)

/-- `count` zeros. -/
def zeros (count : Nat) : List Char := List.replicate count '0'

/-- The digits of a decimal with the point put where it belongs, without an exponent. -/
def Decimal.positional (d : Decimal) : String :=
  let ds := Nat.toDigits 10 d.digits
  if 0 ≤ d.exponent then String.ofList (ds ++ zeros d.exponent.toNat)
  else
    let places := (-d.exponent).toNat
    if places < ds.length then
      let cut := ds.length - places
      String.ofList (ds.take cut ++ '.' :: ds.drop cut)
    else String.ofList ('0' :: '.' :: zeros (places - ds.length) ++ ds)

/-- The digits of a decimal as one digit, a fraction if there is one, and a signed exponent. -/
def Decimal.scientific (d : Decimal) : String :=
  let ds := Nat.toDigits 10 d.digits
  let fraction := if ds.length ≤ 1 then [] else '.' :: ds.drop 1
  let e := d.leading
  let sign := if e < 0 then '-' else '+'
  String.ofList (ds.take 1 ++ fraction ++ 'e' :: sign :: Nat.toDigits 10 e.natAbs)

/-- A text with a minus sign before it if the number is negative. -/
def signed (negative : Bool) (text : String) : String := if negative then "-" ++ text else text

/-- Positional text of a finite magnitude. -/
def plain (mantissa : Nat) (exponent : Int) : String :=
  if mantissa = 0 then "0" else (shortest .up mantissa exponent).positional

/-- **The text of a script number.** Both zeros are `0`, a whole number below `10 ^ 21` has all its
digits, any other number has the fewest digits that read back, without an exponent. -/
def text (x : Float) : String :=
  match decode x with
  | .nan => "NaN"
  | .infinite negative => signed negative "Infinity"
  | .finite negative m e =>
    if m = 0 then "0"
    else if isWhole m e && wholePart m e < Nat.pow 10 21 then
      signed negative (digitsText (wholePart m e))
    else signed negative (plain m e)

/-- The text of a number in the description of a value; it tells the zeros apart. -/
def described (x : Float) : String :=
  match decode x with
  | .nan => "NaN"
  | .infinite negative => signed negative "inf"
  | .finite negative m e => signed negative (plain m e)

/-- The JSON text of a finite float that is written as a float: positional with a point when the
leading digit stands at `10 ^ -5` to `10 ^ 15`, otherwise with an exponent. -/
def jsonText (x : Float) : String :=
  match decode x with
  | .finite negative m e =>
    if m = 0 then signed negative "0.0"
    else
      let d := shortest .toEven m e
      if -5 ≤ d.leading ∧ d.leading ≤ 15 then
        signed negative (if 0 ≤ d.exponent then d.positional ++ ".0" else d.positional)
      else signed negative d.scientific
  | _ => "null"

end ScriptModules.Number
