/-!
# Syntax trees

Expressions, statements and programs. An assignment has a target, which is a name or a member, so
no tree assigns to anything else; a function declaration has a name and an arrow function none.
-/

namespace ScriptModules

/-- The three words that introduce variables. -/
inductive DeclarationKind where
  | var | let | const
deriving DecidableEq, Repr

/-- Constants written in a script. -/
inductive Literal where
  | undefined
  | null
  | boolean (b : Bool)
  | number (x : Float)
  | text (s : String)

/-- Operators before one operand. -/
inductive UnaryOp where
  | not | minus | typeOf
deriving DecidableEq, Repr

/-- Operators between two operands that are both evaluated. -/
inductive BinaryOp where
  | add | subtract | multiply | divide | remainder
  | equal | notEqual | strictlyEqual | strictlyUnequal
  | lessThan | lessThanEqual | greaterThan | greaterThanEqual
deriving DecidableEq, Repr

/-- Operators whose second operand may be skipped. -/
inductive LogicalOp where
  | and | or
deriving DecidableEq, Repr

/-- Ways to assign. -/
inductive AssignOp where
  | set | add | subtract
deriving DecidableEq, Repr

mutual

/-- An expression. -/
inductive Expr where
  | literal (l : Literal)
  | name (x : String)
  | this
  | list (items : List Expr)
  | object (properties : List Property)
  | function (name : Option String) (params : List String) (body : List Stmt)
  | arrow (params : List String) (body : Body)
  | unary (op : UnaryOp) (operand : Expr)
  | binary (op : BinaryOp) (left right : Expr)
  | logical (op : LogicalOp) (left right : Expr)
  | conditional (test consequent alternate : Expr)
  | assign (op : AssignOp) (target : Target) (value : Expr)
  | member (object : Expr) (key : String)
  | index (object key : Expr)
  | call (callee : Expr) (arguments : List Expr)

/-- What can be assigned to: a variable or a member. -/
inductive Target where
  | name (x : String)
  | member (object : Expr) (key : String)
  | index (object key : Expr)

/-- A key and a value in braces. -/
inductive Property where
  | mk (key : String) (value : Expr)

/-- What a function does: run statements, or give the value of an expression. -/
inductive Body where
  | block (statements : List Stmt)
  | value (e : Expr)

/-- A statement. -/
inductive Stmt where
  | expression (e : Expr)
  | declare (kind : DeclarationKind) (declarators : List Declarator)
  | function (name : String) (params : List String) (body : List Stmt)
  | ret (value : Option Expr)
  | ifElse (test : Expr) (consequent : Stmt) (alternate : Option Stmt)
  | throw (value : Expr)
  | block (statements : List Stmt)
  | empty

/-- A declared name with its initial value, if one is given. -/
inductive Declarator where
  | mk (name : String) (init : Option Expr)

end

instance : Inhabited Expr := ⟨.this⟩
instance : Inhabited Stmt := ⟨.empty⟩

/-- A parsed script. -/
structure Program where
  body : List Stmt

/-- The expression that reads a target. -/
def Target.toExpr : Target → Expr
  | .name x => .name x
  | .member o k => .member o k
  | .index o k => .index o k

/-- The target that an expression is, if it can be assigned to. -/
def Expr.toTarget? : Expr → Option Target
  | .name x => some (.name x)
  | .member o k => some (.member o k)
  | .index o k => some (.index o k)
  | _ => none

/-- Whether the expression is an assignment. -/
def Expr.isAssignment : Expr → Bool
  | .assign .. => true
  | _ => false

@[simp] theorem Target.toTarget?_toExpr (t : Target) : t.toExpr.toTarget? = some t := by
  cases t <;> rfl

end ScriptModules
