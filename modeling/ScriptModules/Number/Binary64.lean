/-!
# Binary numbers

What a 64-bit float stands for: not a number, an infinity, or a sign and an exact multiple of a
power of two. Text and remainder are computed from this form in exact arithmetic.
-/

namespace ScriptModules.Number

/-- The meaning of a 64-bit float; `finite` is the sign and `mantissa · 2 ^ exponent`. -/
inductive Binary64 where
  | nan
  | infinite (negative : Bool)
  | finite (negative : Bool) (mantissa : Nat) (exponent : Int)
deriving DecidableEq, Repr

/-- The meaning of a pattern of 64 bits. -/
def Binary64.ofBits (bits : Nat) : Binary64 :=
  let negative := bits / Nat.pow 2 63 % 2 == 1
  let biased : Nat := bits / Nat.pow 2 52 % Nat.pow 2 11
  let fraction : Nat := bits % Nat.pow 2 52
  if biased = 2047 then
    if fraction = 0 then .infinite negative else .nan
  else if biased = 0 then .finite negative fraction (-1074)
  else .finite negative (Nat.pow 2 52 + fraction) ((biased : Int) - 1075)

/-- The meaning of a float. -/
def decode (x : Float) : Binary64 := Binary64.ofBits x.toBits.toNat

/-- Whether `mantissa · 2 ^ exponent` is a whole number. -/
def isWhole (mantissa : Nat) (exponent : Int) : Bool :=
  0 ≤ exponent || mantissa % Nat.pow 2 (-exponent).toNat == 0

/-- The whole part of `mantissa · 2 ^ exponent`. -/
def wholePart (mantissa : Nat) (exponent : Int) : Nat :=
  if 0 ≤ exponent then mantissa * Nat.pow 2 exponent.toNat
  else mantissa / Nat.pow 2 (-exponent).toNat

/-- The whole number that `x` is, if it is one: its sign and its magnitude. -/
def whole? (x : Float) : Option (Bool × Nat) :=
  match decode x with
  | .finite negative m e => if isWhole m e then some (negative, wholePart m e) else none
  | _ => none

/-- The bits of `count · 2 ^ (-1074)`, for a count of at most 53 leading binary digits. -/
def bitsOfSteps (count : Nat) : Nat :=
  let length := count.log2
  if length < 52 then count
  else (length - 51) * Nat.pow 2 52 + (count / Nat.pow 2 (length - 52) - Nat.pow 2 52)

/-- The float `± mantissa · 2 ^ exponent`, for a mantissa below `2 ^ 53` and an exponent of a
finite float. -/
def encode (negative : Bool) (mantissa : Nat) (exponent : Int) : Float :=
  let magnitude :=
    if 0 ≤ exponent then Float.ofNat (mantissa * Nat.pow 2 exponent.toNat)
    else Float.ofBits (.ofNat (bitsOfSteps (mantissa * Nat.pow 2 (exponent + 1074).toNat)))
  if negative then -magnitude else magnitude

/-- Not a number. -/
def nan : Float := 0.0 / 0.0

/-- **The remainder of a division that rounds toward zero.** It has the sign of the dividend and
is exact: both operands are brought to the smaller power of two, where the remainder of the
mantissas is no larger than the mantissa that was there already. -/
def remainder (x y : Float) : Float :=
  match decode x, decode y with
  | .finite negative m e, .finite _ n f =>
    if n = 0 then nan
    else
      let low := min e f
      let left := m * Nat.pow 2 (e - low).toNat
      let right := n * Nat.pow 2 (f - low).toNat
      encode negative (left % right) low
  | .finite .., .infinite _ => x
  | _, _ => nan

end ScriptModules.Number
