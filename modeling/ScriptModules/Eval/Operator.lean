import ScriptModules.Syntax.Tree
import ScriptModules.Value.Convert

/-!
# Binary operators

Addition joins texts as soon as one side is a text, a list or an object, and otherwise adds
numbers. Comparison goes by code points between two texts and otherwise by numbers.
-/

namespace ScriptModules

/-- Whether addition takes the value as text. -/
def Value.isTextual : Value → Bool
  | .text _ | .list _ | .object _ => true
  | _ => false

namespace BinaryOp

variable {ε : Type}

/-- Apply an operation on numbers. -/
def onNumbers (f : Float → Float → Float) (a b : Value) : Run ε Value := do
  let x ← Run.numberOf a
  let y ← Run.numberOf b
  return .number (f x y)

/-- Add two values. -/
def addValues (a b : Value) : Run ε Value :=
  if a.isTextual || b.isTextual then do
    let s ← Run.textOf a
    let t ← Run.textOf b
    return .text (s ++ t)
  else onNumbers (· + ·) a b

/-- Compare two values, as texts if both are. -/
def compareBy (texts : String → String → Bool) (numbers : Float → Float → Bool) (a b : Value) :
    Run ε Value :=
  match a, b with
  | .text s, .text t => return .boolean (texts s t)
  | a, b => do
    let x ← Run.numberOf a
    let y ← Run.numberOf b
    return .boolean (numbers x y)

/-- Whether two values are loosely equal. -/
def loosely (a b : Value) : Run ε Bool := Run.formOf fun w => a.looseEquals? w b

/-- **Apply an operator to two values.** -/
def apply (op : BinaryOp) (a b : Value) : Run ε Value :=
  match op with
  | .add => addValues a b
  | .subtract => onNumbers (· - ·) a b
  | .multiply => onNumbers (· * ·) a b
  | .divide => onNumbers (· / ·) a b
  | .remainder => onNumbers Number.remainder a b
  | .equal => do return .boolean (← loosely a b)
  | .notEqual => do return .boolean (!(← loosely a b))
  | .strictlyEqual => return .boolean (a.strictEquals b)
  | .strictlyUnequal => return .boolean (!a.strictEquals b)
  | .lessThan => compareBy (· < ·) (· < ·) a b
  | .lessThanEqual => compareBy (· ≤ ·) (· ≤ ·) a b
  | .greaterThan => compareBy (· > ·) (· > ·) a b
  | .greaterThanEqual => compareBy (· ≥ ·) (· ≥ ·) a b

end BinaryOp

end ScriptModules
