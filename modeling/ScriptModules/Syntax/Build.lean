import ScriptModules.Grammar.Match
import ScriptModules.Grammar.Script
import ScriptModules.Number.Read
import ScriptModules.Syntax.Escape
import ScriptModules.Syntax.Precedence

/-!
# Trees from nodes

The nodes that the grammar leaves behind become a syntax tree. Three things that the grammar lets
pass are refused here: a constant without an initial value, an assignment to something that is
neither a name nor a member, and a bad escape. Nodes that no match of the grammar leaves behind
have no tree either.
-/

namespace ScriptModules

open Grammar (Node Rule)

/-- Why a text is no script. -/
inductive SyntaxCause where
  /-- None of these rules matched at the furthest place reached. -/
  | unexpected (expected : List Rule)
  /-- A constant is declared without an initial value. -/
  | missingInitializer
  /-- The left side of an assignment is neither a name nor a member. -/
  | invalidTarget
  /-- A string literal has a bad escape. -/
  | invalidEscape
  /-- The nodes come from no match of the grammar. -/
  | malformed
deriving DecidableEq

/-- Why a text is no script, and the offset of the place where it shows. -/
structure SyntaxFault where
  cause : SyntaxCause
  offset : Nat

/-- What is built from a node. -/
abbrev Built (α : Type) := Except SyntaxFault α

/-- The fault of a node. -/
def fault {α : Type} (cause : SyntaxCause) (n : Node Rule) : Built α := .error ⟨cause, n.offset⟩

/-- The operator before an operand that a node is. -/
def UnaryOp.ofRule? : Rule → Option UnaryOp
  | .not => some .not
  | .neg => some .minus
  | .typeofOp => some .typeOf
  | _ => none

/-- The operator between operands that a node is. -/
def InfixOp.ofRule? : Rule → Option InfixOp
  | .or => some (.logical .or)
  | .and => some (.logical .and)
  | .strictEq => some (.binary .strictlyEqual)
  | .strictNe => some (.binary .strictlyUnequal)
  | .eq => some (.binary .equal)
  | .ne => some (.binary .notEqual)
  | .lt => some (.binary .lessThan)
  | .le => some (.binary .lessThanEqual)
  | .gt => some (.binary .greaterThan)
  | .ge => some (.binary .greaterThanEqual)
  | .add => some (.binary .add)
  | .sub => some (.binary .subtract)
  | .mul => some (.binary .multiply)
  | .div => some (.binary .divide)
  | .rem => some (.binary .remainder)
  | _ => none

/-- The way to assign written by a sign. -/
def AssignOp.ofText (s : String) : AssignOp :=
  if s = "+=" then .add else if s = "-=" then .subtract else .set

/-- The kind of declaration written by a word. -/
def DeclarationKind.ofText (s : String) : DeclarationKind :=
  if s = "var" then .var else if s = "let" then .let else .const

/-- The text of a string literal. -/
def literalText (n : Node Rule) : Built String :=
  match n.children with
  | [raw] =>
    match Escape.decode raw.chars with
    | some cs => .ok (String.ofList cs)
    | none => fault .invalidEscape n
  | _ => fault .malformed n

/-- The names of parameters. -/
def paramNames (n : Node Rule) : List String := n.children.map (·.text)

/-- The key that a property is written with. -/
def keyText (n : Node Rule) : Built String :=
  if n.rule = .stringLiteral then literalText n else .ok n.text

/-- The value of a literal that has no parts, or a name. -/
def leaf (n : Node Rule) : Built Expr :=
  match n.rule with
  | .numberLiteral =>
    match Number.read? n.chars with
    | some x => .ok (.literal (.number x))
    | none => fault .malformed n
  | .stringLiteral => (literalText n).map fun s => .literal (.text s)
  | .booleanLiteral => .ok (.literal (.boolean (n.text = "true")))
  | .nullLiteral => .ok (.literal .null)
  | .undefinedLiteral => .ok (.literal .undefined)
  | .thisExpression => .ok .this
  | .identifier => .ok (.name n.text)
  | _ => fault .malformed n

mutual

/-- The statement that a node is. -/
def Stmt.ofNode : Node Rule → Built Stmt
  | .mk .expressionStatement _ _ [e] => do return .expression (← Expr.ofNode e)
  | .mk .variableStatement _ _ (kind :: ds) => do
    let kind := DeclarationKind.ofText kind.text
    return .declare kind (← Declarator.ofNodes kind ds)
  | .mk .functionDeclaration _ _ [_, name, ps, .mk .functionBody _ _ body] => do
    return .function name.text (paramNames ps) (← Stmt.ofNodes body)
  | .mk .returnStatement _ _ [_] => .ok (.ret none)
  | .mk .returnStatement _ _ [_, e] => do return .ret (some (← Expr.ofNode e))
  | .mk .ifStatement _ _ [_, test, consequent] => do
    return .ifElse (← Expr.ofNode test) (← Stmt.ofNode consequent) none
  | .mk .ifStatement _ _ [_, test, consequent, _, alternate] => do
    return .ifElse (← Expr.ofNode test) (← Stmt.ofNode consequent) (some (← Stmt.ofNode alternate))
  | .mk .throwStatement _ _ [_, e] => do return .throw (← Expr.ofNode e)
  | .mk .block _ _ body => do return .block (← Stmt.ofNodes body)
  | .mk .emptyStatement _ _ _ => .ok .empty
  | n => fault .malformed n

/-- The statements that nodes are; the end of the text is none. -/
def Stmt.ofNodes : List (Node Rule) → Built (List Stmt)
  | [] => .ok []
  | .mk .endOfInput _ _ _ :: rest => Stmt.ofNodes rest
  | n :: rest => do
    let s ← Stmt.ofNode n
    return s :: (← Stmt.ofNodes rest)

/-- The declarators of one declaration. A constant needs an initial value. -/
def Declarator.ofNodes (kind : DeclarationKind) : List (Node Rule) → Built (List Declarator)
  | [] => .ok []
  | .mk .variableDeclaration start stop [name] :: rest => do
    if kind = .const then
      fault .missingInitializer (.mk .variableDeclaration start stop [name])
    else
      return .mk name.text none :: (← Declarator.ofNodes kind rest)
  | .mk .variableDeclaration _ _ [name, init] :: rest => do
    let init ← Expr.ofNode init
    return .mk name.text (some init) :: (← Declarator.ofNodes kind rest)
  | n :: _ => fault .malformed n

/-- The expression that a node is. -/
def Expr.ofNode : Node Rule → Built Expr
  | .mk .arrowFunction _ _ [ps, .mk .functionBody _ _ body] => do
    return .arrow (paramNames ps) (.block (← Stmt.ofNodes body))
  | .mk .arrowFunction _ _ [ps, e] => do
    return .arrow (paramNames ps) (.value (← Expr.ofNode e))
  | .mk .assignment _ _ [target, op, value] => do
    let left ← Expr.ofNode target
    match left.toTarget? with
    | none => fault .invalidTarget target
    | some left => return .assign (AssignOp.ofText op.text) left (← Expr.ofNode value)
  | .mk .conditional _ _ [test] => Expr.ofNode test
  | .mk .conditional _ _ [test, consequent, alternate] => do
    return .conditional (← Expr.ofNode test) (← Expr.ofNode consequent) (← Expr.ofNode alternate)
  | .mk .binary start stop row => do
    match RowItem.toExpr? (← RowItem.ofNodes row) with
    | some e => return e
    | none => fault .malformed (.mk .binary start stop row)
  | .mk .postfix_ _ _ (first :: ops) => do
    let e ← Expr.ofNode first
    Expr.applyNodes e ops
  | .mk .functionExpression _ _ [_, ps, .mk .functionBody _ _ body] => do
    return .function none (paramNames ps) (← Stmt.ofNodes body)
  | .mk .functionExpression _ _ [_, name, ps, .mk .functionBody _ _ body] => do
    return .function (some name.text) (paramNames ps) (← Stmt.ofNodes body)
  | .mk .arrayLiteral _ _ items => do return .list (← Expr.ofNodes items)
  | .mk .objectLiteral _ _ properties => do return .object (← Property.ofNodes properties)
  | .mk .parenthesized _ _ [e] => Expr.ofNode e
  | n => leaf n

/-- The expressions that nodes are. -/
def Expr.ofNodes : List (Node Rule) → Built (List Expr)
  | [] => .ok []
  | n :: rest => do
    let e ← Expr.ofNode n
    return e :: (← Expr.ofNodes rest)

/-- The calls and members that nodes add behind an expression, one after the other. -/
def Expr.applyNodes (e : Expr) : List (Node Rule) → Built Expr
  | [] => .ok e
  | .mk .callArguments _ _ arguments :: rest => do
    let arguments ← Expr.ofNodes arguments
    Expr.applyNodes (.call e arguments) rest
  | .mk .memberDot _ _ [key] :: rest => Expr.applyNodes (.member e key.text) rest
  | .mk .memberIndex _ _ [key] :: rest => do
    let key ← Expr.ofNode key
    Expr.applyNodes (.index e key) rest
  | n :: _ => fault .malformed n

/-- The pieces of a row of operators and operands. -/
def RowItem.ofNodes : List (Node Rule) → Built (List RowItem)
  | [] => .ok []
  | .mk .postfix_ start stop parts :: rest => do
    let e ← Expr.ofNode (.mk .postfix_ start stop parts)
    return .operand e :: (← RowItem.ofNodes rest)
  | n :: rest =>
    match UnaryOp.ofRule? n.rule, InfixOp.ofRule? n.rule with
    | some op, _ => do return .before op :: (← RowItem.ofNodes rest)
    | none, some op => do return .between op :: (← RowItem.ofNodes rest)
    | none, none => fault .malformed n

/-- The properties that nodes are; a name alone stands for the variable of that name. -/
def Property.ofNodes : List (Node Rule) → Built (List Property)
  | [] => .ok []
  | .mk .property _ _ [name] :: rest => do
    return .mk name.text (.name name.text) :: (← Property.ofNodes rest)
  | .mk .property _ _ [key, value] :: rest => do
    let key ← keyText key
    let value ← Expr.ofNode value
    return .mk key value :: (← Property.ofNodes rest)
  | n :: _ => fault .malformed n

end

end ScriptModules
