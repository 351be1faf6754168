import ScriptModules.Syntax.Tree

/-!
# Operator precedence

Operands with operators between them become a tree. Every operator groups to the left, and one of
a higher level binds tighter. A new operator enters the tree on the right edge: it descends while
the operator there binds looser, and takes what it then finds as its left operand.
-/

namespace ScriptModules

/-- Operators that stand between two operands. -/
inductive InfixOp where
  | logical (op : LogicalOp)
  | binary (op : BinaryOp)
deriving DecidableEq, Repr

/-- How tightly an operator binds. -/
def InfixOp.level : InfixOp → Nat
  | .logical .or => 1
  | .logical .and => 2
  | .binary op =>
    match op with
    | .equal | .notEqual | .strictlyEqual | .strictlyUnequal => 3
    | .lessThan | .lessThanEqual | .greaterThan | .greaterThanEqual => 4
    | .add | .subtract => 5
    | .multiply | .divide | .remainder => 6

/-- The expression that applies an operator. -/
def InfixOp.apply : InfixOp → Expr → Expr → Expr
  | .logical op, l, r => .logical op l r
  | .binary op, l, r => .binary op l r

/-- How the operators between a row of operands group. -/
inductive Grouping where
  | operand (e : Expr)
  | node (op : InfixOp) (left right : Grouping)

namespace Grouping

/-- Add one more operator and operand on the right. -/
def append : Grouping → InfixOp → Expr → Grouping
  | operand x, op, e => node op (operand x) (operand e)
  | node o l r, op, e =>
    if o.level < op.level then node o l (r.append op e) else node op (node o l r) (operand e)

/-- The grouping of an operand followed by operators and operands. -/
def ofRow (first : Expr) (rest : List (InfixOp × Expr)) : Grouping :=
  rest.foldl (fun t p => t.append p.1 p.2) (operand first)

/-- The expression with these groups. -/
def toExpr : Grouping → Expr
  | operand e => e
  | node op l r => op.apply l.toExpr r.toExpr

end Grouping

/-- A piece of a row of operators and operands. -/
inductive RowItem where
  | before (op : UnaryOp)
  | between (op : InfixOp)
  | operand (e : Expr)

/-- A row seen from its end: the operand that waits for what stands before it, and the operators
and operands behind it. -/
structure Row where
  waiting : Option Expr
  rest : List (InfixOp × Expr)

/-- Put one more piece before a row. An operator before an operand applies to just that operand. -/
def Row.cons (item : RowItem) (row : Row) : Option Row :=
  match item, row.waiting with
  | .operand e, none => some ⟨some e, row.rest⟩
  | .before op, some e => some ⟨some (.unary op e), row.rest⟩
  | .between op, some e => some ⟨none, (op, e) :: row.rest⟩
  | _, _ => none

/-- The row of the pieces, if they alternate as they should. -/
def Row.ofItems : List RowItem → Option Row
  | [] => some ⟨none, []⟩
  | item :: rest => (Row.ofItems rest).bind (Row.cons item)

/-- The expression that a row of operators and operands stands for. -/
def RowItem.toExpr? (items : List RowItem) : Option Expr :=
  match Row.ofItems items with
  | some ⟨some first, rest⟩ => some (Grouping.ofRow first rest).toExpr
  | _ => none

end ScriptModules
