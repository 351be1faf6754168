import ScriptModules.Eval.Member
import ScriptModules.Eval.Operator
import ScriptModules.World.Scope

/-!
# Evaluating scripts

Expressions yield values, statements run to their end or return. Operands are evaluated from left
to right and each effect takes place where it stands; a failure stops everything. The evaluator
follows the syntax tree. What a call does is a parameter, so that the recursion through function
bodies is tied in one place only.

The functions declared in a list of statements are bound before the first of them runs.
-/

namespace ScriptModules

/-- What a call of a function with `this` and arguments does. -/
abbrev CallSemantics := Ref .function → Value → Array Value → Script Value

/-- The value of a literal. -/
def Literal.value : Literal → Value
  | .undefined => .undefined
  | .null => .null
  | .boolean b => .boolean b
  | .number x => .number x
  | .text s => .text s

mutual

/-- The words for a called expression in the error that it is no function. -/
def Expr.describe : Expr → String
  | .name x => x
  | .member o key => o.describe ++ "." ++ key
  | .index o _ => o.describe ++ ".[...]"
  | .this => "this"
  | _ => "expression"

end

/-- Call a value, which must be a function; `description` names it in the error. -/
def callValue (call : CallSemantics) (v : Value) (description : String) (this : Value)
    (arguments : Array Value) : Script Value :=
  match v with
  | .function f => Run.noticing (call f this arguments)
  | _ => Run.fail (.wrongType (description ++ " is not a function"))

/-- The value that an assignment stores, from what was there and what is assigned. -/
def AssignOp.combine (op : AssignOp) (current : Script Value) (v : Value) : Script Value :=
  match op with
  | .set => return v
  | .add => do BinaryOp.apply .add (← current) v
  | .subtract => do BinaryOp.apply .subtract (← current) v

/-- Make a function in a scope. -/
def makeClosure (s : Ref .scope) (name : String) (params : List String) (body : Body)
    (isArrow : Bool) : Script Value := do
  return .function (← Run.newFunction (.closure ⟨name, params, body, isArrow, s⟩))

/-- Bind the functions declared in a list of statements. -/
def hoist (s : Ref .scope) : List Stmt → Script Unit
  | [] => return ()
  | .function name params body :: rest => do
    let f ← makeClosure s name params (.block body) false
    Run.declare s name f false
    hoist s rest
  | _ :: rest => hoist s rest

/-- How a statement ends. -/
inductive Completion where
  | normal
  | returned (v : Value)

section

variable (call : CallSemantics)

mutual

/-- **The value of an expression** in a scope. -/
def Expr.eval (s : Ref .scope) : Expr → Script Value
  | .literal l => return l.value
  | .name x => Run.lookup s x
  | .this => Run.read (·.thisOf s)
  | .list items => do
    let vs ← Expr.evalAll s items
    return .list (← Run.newList vs.toArray)
  | .object properties => do
    let ps ← Property.evalAll s properties
    return .object (← Run.newObject { properties := .ofList ps })
  | .function name params body => makeClosure s (name.getD "") params (.block body) false
  | .arrow params body => makeClosure s "" params body true
  | .unary .not e => do return .boolean (!(← e.eval s).isTruthy)
  | .unary .minus e => do
    let v ← e.eval s
    return .number (-(← Run.numberOf v))
  | .unary .typeOf (.name x) => do
    return .text ((← Run.tryLookup s x).getD .undefined).typeOf
  | .unary .typeOf e => do return .text (← e.eval s).typeOf
  | .binary op l r => do
    let a ← l.eval s
    let b ← r.eval s
    op.apply a b
  | .logical .and l r => do
    let a ← l.eval s
    if a.isTruthy then r.eval s else return a
  | .logical .or l r => do
    let a ← l.eval s
    if a.isTruthy then return a else r.eval s
  | .conditional test consequent alternate => do
    if (← test.eval s).isTruthy then consequent.eval s else alternate.eval s
  | .assign op (.name x) e => do
    let rhs ← e.eval s
    let v ← op.combine (Run.lookup s x) rhs
    Run.assign s x v
    return v
  | .assign op (.member o key) e => do
    let target ← o.eval s
    let rhs ← e.eval s
    let v ← op.combine (Run.getMember target key) rhs
    Run.setMember target key v
    return v
  | .assign op (.index o k) e => do
    let target ← o.eval s
    let k ← k.eval s
    let key ← Run.textOf k
    let rhs ← e.eval s
    let v ← op.combine (Run.getMember target key) rhs
    Run.setMember target key v
    return v
  | .member o key => do
    let target ← o.eval s
    Run.getMember target key
  | .index o k => do
    let target ← o.eval s
    let k ← k.eval s
    let key ← Run.textOf k
    Run.getMember target key
  | .call (.member o key) arguments => do
    let this ← o.eval s
    let f ← Run.getMember this key
    let vs ← Expr.evalAll s arguments
    callValue call f (Expr.member o key).describe this vs.toArray
  | .call (.index o k) arguments => do
    let this ← o.eval s
    let kv ← k.eval s
    let key ← Run.textOf kv
    let f ← Run.getMember this key
    let vs ← Expr.evalAll s arguments
    callValue call f (Expr.index o k).describe this vs.toArray
  | .call callee arguments => do
    let f ← callee.eval s
    let vs ← Expr.evalAll s arguments
    callValue call f callee.describe .undefined vs.toArray

/-- The values of expressions, from left to right. -/
def Expr.evalAll (s : Ref .scope) : List Expr → Script (List Value)
  | [] => return []
  | e :: rest => do
    let v ← e.eval s
    return v :: (← Expr.evalAll s rest)

/-- The keys and values of properties, from left to right. -/
def Property.evalAll (s : Ref .scope) : List Property → Script (List (String × Value))
  | [] => return []
  | .mk key e :: rest => do
    let v ← e.eval s
    return (key, v) :: (← Property.evalAll s rest)

end

/-- Declare names one after the other, each with its value. -/
def Declarator.execAll (s : Ref .scope) (constant : Bool) : List Declarator → Script Unit
  | [] => return ()
  | .mk name init :: rest => do
    let v ← match init with
      | some e => e.eval call s
      | none => pure .undefined
    Run.declare s name v constant
    Declarator.execAll s constant rest

mutual

/-- **Run a statement** in a scope. -/
def Stmt.exec (s : Ref .scope) : Stmt → Script Completion
  | .empty => return .normal
  | .expression e => do
    let _ ← e.eval call s
    return .normal
  | .declare kind declarators => do
    Declarator.execAll call s (kind = .const) declarators
    return .normal
  | .function .. => return .normal
  | .ret none => return .returned .undefined
  | .ret (some e) => do return .returned (← e.eval call s)
  | .ifElse test consequent alternate => do
    if (← test.eval call s).isTruthy then consequent.exec s
    else
      match alternate with
      | some alternate => alternate.exec s
      | none => return .normal
  | .throw e => do
    let v ← e.eval call s
    Run.fail (.thrown (← Run.textOf v))
  | .block statements => do
    let inner ← Run.newInnerScope s none
    hoist inner statements
    Stmt.execAll inner statements

/-- Run statements in order up to the first that returns. -/
def Stmt.execAll (s : Ref .scope) : List Stmt → Script Completion
  | [] => return .normal
  | stmt :: rest => do
    match ← stmt.exec s with
    | .returned v => return .returned v
    | .normal => Stmt.execAll s rest

end

/-- Bind the functions declared in a list of statements, and run it. -/
def runBlock (s : Ref .scope) (statements : List Stmt) : Script Completion := do
  hoist s statements
  Stmt.execAll call s statements

/-- What a list of statements yields as a program: the value returned, or that of the last
statement if it is an expression and no assignment. -/
def Stmt.runAll (s : Ref .scope) : List Stmt → Script Value
  | [] => return .undefined
  | [.expression e] => do
    let v ← e.eval call s
    return if e.isAssignment then .undefined else v
  | stmt :: rest => do
    match ← stmt.exec call s with
    | .returned v => return v
    | .normal => Stmt.runAll s rest

/-- **Run a program** in its root scope. -/
def Program.run (p : Program) (s : Ref .scope) : Script Value := do
  hoist s p.body
  Stmt.runAll call s p.body

/-- Evaluate a program against bindings: on the heap that they name, or on one of its own that is
released at the end. -/
def Program.evaluate (p : Program) (b : Bindings) : Script Value :=
  match b.heap with
  | some h => do
    let s ← Run.newRootScope b h
    p.run call s
  | none => do
    let h ← Run.newHeap
    let s ← Run.newRootScope b h
    Run.andAlways (p.run call s) fun w => w.release h

/-- Declare parameters; one without an argument is undefined. -/
def bindParams (s : Ref .scope) (arguments : Array Value) : Nat → List String → Script Unit
  | _, [] => return ()
  | i, x :: rest => do
    Run.declare s x ((arguments[i]?).getD .undefined) false
    bindParams s arguments (i + 1) rest

/-- What the body of a function yields in the scope of its call. -/
def Body.run (s : Ref .scope) : Body → Script Value
  | .value e => e.eval call s
  | .block statements => do
    match ← runBlock call s statements with
    | .returned v => return v
    | .normal => return .undefined

/-- Bind the list of all arguments in the scope of a call. -/
def bindArguments (s : Ref .scope) (arguments : Array Value) : Script Unit := do
  let l ← Run.newList arguments
  Run.declare s "arguments" (.list l) false

/-- Run a function written in a script in a scope of its own. An arrow function has the `this` of
its scope and no `arguments`. -/
def Closure.run (c : Closure) (this : Value) (arguments : Array Value) : Script Value := do
  let s ← Run.newInnerScope c.scope (if c.isArrow then none else some this)
  bindParams s arguments 0 c.params
  if ¬ c.isArrow then bindArguments s arguments
  c.body.run call s

/-- **Call a function written in a script.** A call counts on the heap of the function's scope. -/
def Closure.invoke (c : Closure) (this : Value) (arguments : Array Value) : Script Value := do
  let h ← Run.read (·.heapOf c.scope)
  Run.nested h (c.run call this arguments)

end

end ScriptModules
