import ScriptModules.Number.Binary64

/-!
# Shortest decimals

The decimal with the fewest digits among those that read back as a given float, and the nearest
to it among these. The float is `m · 2 ^ q`; the reals that round to it form an interval around it
whose ends belong to it exactly when `m` is even. For each number of digits the two neighbours of
the float on that decimal grid are tried, in exact arithmetic. If two are equally near, the caller
says which one is taken.
-/

namespace ScriptModules.Number

/-- What to do with a value half-way between two shortest decimals. -/
inductive Tie where
  | up | toEven
deriving DecidableEq, Repr

/-- The decimal `digits · 10 ^ exponent`. -/
structure Decimal where
  digits : Nat
  exponent : Int
deriving DecidableEq, Repr

/-- The number of decimal digits of `n`, at least one. -/
def digitCount (n : Nat) : Nat := (Nat.toDigits 10 n).length

/-- The exact value of `mantissa · 2 ^ exponent` as a quotient. -/
structure Ratio where
  num : Nat
  den : Nat

/-- `mantissa · 2 ^ exponent` as a quotient. -/
def Ratio.ofBinary (mantissa : Nat) (exponent : Int) : Ratio :=
  ⟨mantissa * Nat.pow 2 exponent.toNat, Nat.pow 2 (-exponent).toNat⟩

/-- The quotient times a power of ten. -/
def Ratio.shift (r : Ratio) (places : Int) : Ratio :=
  ⟨r.num * Nat.pow 10 places.toNat, r.den * Nat.pow 10 (-places).toNat⟩

/-- The `e` with `10 ^ e ≤ r < 10 ^ (e + 1)`, for a positive quotient. -/
def Ratio.magnitude (r : Ratio) : Int :=
  let guess : Int := (digitCount r.num : Int) - digitCount r.den
  let shifted := r.shift (-guess)
  if shifted.den ≤ shifted.num then guess else guess - 1

/-- The interval of the reals that round to `m · 2 ^ q`, on a grid where that value is
`num / den`: `gap` is four times the distance to the next float. -/
structure Interval where
  mantissa : Nat
  num : Nat
  den : Nat

/-- Whether the grid point `d` lies in the interval. A power of two has the float below it at half
the distance. -/
def Interval.covers (i : Interval) (d : Nat) : Bool :=
  let step := i.num / i.mantissa
  let room := if i.mantissa = Nat.pow 2 52 then step else 2 * step
  let closed := i.mantissa % 2 == 0
  if i.num ≤ d * i.den then
    let excess := 4 * (d * i.den - i.num)
    if closed then excess ≤ 2 * step else excess < 2 * step
  else
    let lack := 4 * (i.num - d * i.den)
    if closed then lack ≤ room else lack < room

/-- The nearer of the grid points `d` and `d + 1` that lies in the interval. -/
def Interval.nearest? (tie : Tie) (i : Interval) : Option Nat :=
  let d := i.num / i.den
  match i.covers d, i.covers (d + 1) with
  | false, false => none
  | true, false => some d
  | false, true => some (d + 1)
  | true, true =>
    let below := i.num - d * i.den
    let above := (d + 1) * i.den - i.num
    if below < above then some d
    else if above < below then some (d + 1)
    else match tie with
      | .up => some (d + 1)
      | .toEven => if d % 2 = 0 then some d else some (d + 1)

/-- Move the trailing zeros of the digits into the exponent; `fuel` bounds their number. -/
def Decimal.stripped : Nat → Decimal → Decimal
  | 0, d => d
  | fuel + 1, d =>
    if d.digits ≠ 0 ∧ d.digits % 10 = 0 then stripped fuel ⟨d.digits / 10, d.exponent + 1⟩ else d

/-- The shortest decimal with at least `count` digits, trying `fuel` grids. -/
def shortestFrom (tie : Tie) (mantissa : Nat) (r : Ratio) (magnitude : Int) : Nat → Nat → Decimal
  | 0, count => ⟨r.num / r.den, -count⟩
  | fuel + 1, count =>
    let places : Int := (count : Int) - 1 - magnitude
    let grid := r.shift places
    match Interval.nearest? tie ⟨mantissa, grid.num, grid.den⟩ with
    | some d => Decimal.stripped (count + 1) ⟨d, -places⟩
    | none => shortestFrom tie mantissa r magnitude fuel (count + 1)

/-- **The shortest decimal that reads back as `mantissa · 2 ^ exponent`,** for a positive mantissa
below `2 ^ 53`. Seventeen digits always suffice. -/
def shortest (tie : Tie) (mantissa : Nat) (exponent : Int) : Decimal :=
  let r := Ratio.ofBinary mantissa exponent
  shortestFrom tie mantissa r r.magnitude 17 1

/-- The exponent of the leading digit. -/
def Decimal.leading (d : Decimal) : Int := digitCount d.digits - 1 + d.exponent

end ScriptModules.Number
