import ScriptModules.Proofs.QuietBuiltin

/-!
# What evaluation inherits from calls

The evaluator takes the meaning of calls as a parameter. `Sequential R` and `Congruence R` collect what a comparison
`R` of runs must satisfy so that evaluations compare as their calls do: runs that call nothing compare
with themselves, and runs in sequence compare if their parts do. `Expr.eval_congr` and the lemmas beside
it are the induction over the syntax tree, done once; a comparison that looks at one side only is a
property of runs, and then the lemmas say that evaluation has it as soon as calls have.

Calls count on a heap (`Run.nested`), which is not inward. So these lemmas stop at function bodies
and programs, and what counting does is left to each comparison.
-/

namespace ScriptModules

set_option linter.unusedSectionVars false

/-- A comparison of runs that call nothing but functions, in sequence. -/
structure Sequential (R : ∀ {α : Type}, Script α → Script α → Prop) : Prop where
  quiet : ∀ {α : Type} {x : Script α}, Run.Within World.Quiet x → R x x
  bind : ∀ {α β : Type} {x y : Script α} {f g : α → Script β}, R x y → (∀ a, R (f a) (g a)) →
    R (x >>= f) (y >>= g)
  noticing : ∀ {α : Type} {x y : Script α}, R x y → R (Run.noticing x) (Run.noticing y)

/-- **A comparison of runs that evaluation inherits from calls.** -/
structure Congruence (R : ∀ {α : Type}, Script α → Script α → Prop) : Prop extends
    Sequential R where
  inward : ∀ {α : Type} {x : Script α}, Run.Within World.Inward x → R x x

section

variable {R : ∀ {α : Type}, Script α → Script α → Prop} (Q : Sequential R)
  {call call' : CallSemantics}
  (hc : ∀ f this arguments, R (call f this arguments) (call' f this arguments))

include Q hc

theorem callValue_congr (v : Value) (description : String) (this : Value)
    (arguments : Array Value) :
    R (callValue call v description this arguments)
      (callValue call' v description this arguments) := by
  cases v with
  | function f => exact Q.noticing (hc f this arguments)
  | _ => exact Q.quiet (.fail trivial)

theorem ListMethod.visit_congr (callback : Value) (description : String) (l : Ref .list) (i : Nat)
    (results : Array Value) (items : List Value) :
    R (ListMethod.visit call callback description l i results items)
      (ListMethod.visit call' callback description l i results items) := by
  induction items generalizing i results with
  | nil => exact Q.quiet .pure
  | cons v rest ih => exact Q.bind (callValue_congr Q hc callback _ _ _) fun r => ih _ _

theorem ListMethod.invoke_congr (m : ListMethod) (l : Ref .list) (arguments : Array Value) :
    R (m.invoke call l arguments) (m.invoke call' l arguments) := by
  cases m with
  | push => exact Q.quiet (ListMethod.pushAll_quiet l arguments)
  | join => exact Q.quiet (ListMethod.joinItems_quiet l _)
  -- the items are read once, before the first call
  | map =>
    exact Q.bind (Q.quiet .read) fun _ => Q.bind (ListMethod.visit_congr Q hc _ _ l _ _ _) fun _ =>
      Q.quiet (.bind (Run.newList_quiet _) fun _ => .pure)
  | forEach =>
    exact Q.bind (Q.quiet .read) fun _ => Q.bind (ListMethod.visit_congr Q hc _ _ l _ _ _) fun _ =>
      Q.quiet .pure
  | indexOf => exact Q.quiet (ListMethod.indexOfItem_quiet l _)

end

section

variable {R : ∀ {α : Type}, Script α → Script α → Prop} (C : Congruence R)
  {call call' : CallSemantics}
  (hc : ∀ f this arguments, R (call f this arguments) (call' f this arguments))

include C hc

mutual

/-- Expressions compare as calls do. -/
theorem Expr.eval_congr (s : Ref .scope) : ∀ e : Expr, R (e.eval call s) (e.eval call' s)
  | .literal _ => C.quiet .pure
  | .name x => C.quiet (Run.lookup_quiet s x)
  | .this => C.quiet .read
  | .list items =>
    C.bind (Expr.evalAll_congr s items) fun _ => C.quiet (.bind (Run.newList_quiet _) fun _ => .pure)
  | .object properties =>
    C.bind (Property.evalAll_congr s properties) fun _ =>
      C.quiet (.bind (Run.newObject_quiet _) fun _ => .pure)
  | .function _ _ _ => C.inward (Run.makeClosure_inward s _ _ _ _)
  | .arrow _ _ => C.inward (Run.makeClosure_inward s _ _ _ _)
  | .unary .not e => C.bind (Expr.eval_congr s e) fun _ => C.quiet .pure
  | .unary .minus e =>
    C.bind (Expr.eval_congr s e) fun v => C.quiet (.bind (Run.numberOf_quiet v) fun _ => .pure)
  | .unary .typeOf e => by
    cases e with
    | name x => exact C.quiet (.bind (Run.tryLookup_quiet s x) fun _ => .pure)
    | _ => exact C.bind (Expr.eval_congr s _) fun _ => C.quiet .pure
  | .binary op l r =>
    C.bind (Expr.eval_congr s l) fun a => C.bind (Expr.eval_congr s r) fun b =>
      C.quiet (op.apply_within a b)
  | .logical .and l r => C.bind (Expr.eval_congr s l) fun a => by
    split
    · exact Expr.eval_congr s r
    · exact C.quiet .pure
  | .logical .or l r => C.bind (Expr.eval_congr s l) fun a => by
    split
    · exact C.quiet .pure
    · exact Expr.eval_congr s r
  | .conditional test consequent alternate => C.bind (Expr.eval_congr s test) fun v => by
    split
    · exact Expr.eval_congr s consequent
    · exact Expr.eval_congr s alternate
  | .assign op (.name x) e =>
    C.bind (Expr.eval_congr s e) fun _ =>
      C.bind (C.quiet (op.combine_within _ (Run.lookup_quiet s x))) fun _ =>
        C.bind (C.inward (Run.assign_inward s x _)) fun _ => C.quiet .pure
  | .assign op (.member o key) e =>
    C.bind (Expr.eval_congr s o) fun target => C.bind (Expr.eval_congr s e) fun _ => C.quiet
      (.bind (op.combine_within _ (Run.getMember_quiet target key)) fun _ =>
        .bind (Run.setMember_quiet target key _) fun _ => .pure)
  | .assign op (.index o k) e =>
    C.bind (Expr.eval_congr s o) fun target => C.bind (Expr.eval_congr s k) fun v =>
      C.bind (C.quiet (Run.textOf_quiet v)) fun key => C.bind (Expr.eval_congr s e) fun _ => C.quiet
        (.bind (op.combine_within _ (Run.getMember_quiet target key)) fun _ =>
          .bind (Run.setMember_quiet target key _) fun _ => .pure)
  | .member o key => C.bind (Expr.eval_congr s o) fun v => C.quiet (Run.getMember_quiet v key)
  | .index o k =>
    C.bind (Expr.eval_congr s o) fun v => C.bind (Expr.eval_congr s k) fun i =>
      C.quiet (.bind (Run.textOf_quiet i) fun key => Run.getMember_quiet v key)
  | .call callee arguments => by
    -- the callee of a method call is its receiver and then a member of it
    cases callee with
    | member o key =>
      exact C.bind (Expr.eval_congr s o) fun this =>
        C.bind (C.quiet (Run.getMember_quiet this key)) fun f =>
          C.bind (Expr.evalAll_congr s arguments) fun _ => callValue_congr C.toSequential hc f _ this _
    | index o k =>
      exact C.bind (Expr.eval_congr s o) fun this => C.bind (Expr.eval_congr s k) fun v =>
        C.bind (C.quiet (Run.textOf_quiet v)) fun key =>
          C.bind (C.quiet (Run.getMember_quiet this key)) fun f =>
            C.bind (Expr.evalAll_congr s arguments) fun _ => callValue_congr C.toSequential hc f _ this _
    | _ =>
      exact C.bind (Expr.eval_congr s _) fun f =>
        C.bind (Expr.evalAll_congr s arguments) fun _ => callValue_congr C.toSequential hc f _ _ _

theorem Expr.evalAll_congr (s : Ref .scope) :
    ∀ es : List Expr, R (Expr.evalAll call s es) (Expr.evalAll call' s es)
  | [] => C.quiet .pure
  | e :: rest =>
    C.bind (Expr.eval_congr s e) fun _ => C.bind (Expr.evalAll_congr s rest) fun _ => C.quiet .pure

theorem Property.evalAll_congr (s : Ref .scope) :
    ∀ ps : List Property, R (Property.evalAll call s ps) (Property.evalAll call' s ps)
  | [] => C.quiet .pure
  | .mk _ e :: rest =>
    C.bind (Expr.eval_congr s e) fun _ => C.bind (Property.evalAll_congr s rest) fun _ =>
      C.quiet .pure

end

theorem Declarator.execAll_congr (s : Ref .scope) (constant : Bool) (ds : List Declarator) :
    R (Declarator.execAll call s constant ds) (Declarator.execAll call' s constant ds) := by
  induction ds with
  | nil => exact C.quiet .pure
  | cons d rest ih =>
    obtain ⟨name, init⟩ := d
    -- with or without a value, the name is declared and the others follow
    have declared : ∀ v, R (do Run.declare s name v constant; Declarator.execAll call s constant rest)
        (do Run.declare s name v constant; Declarator.execAll call' s constant rest) := fun v =>
      C.bind (C.inward (Run.declare_inward s name v constant)) fun _ => ih
    cases init with
    | some e => exact C.bind (Expr.eval_congr C hc s e) declared
    | none => exact C.bind (C.quiet .pure) declared

mutual

/-- Statements compare as calls do. -/
theorem Stmt.exec_congr : ∀ (s : Ref .scope) (stmt : Stmt),
    R (stmt.exec call s) (stmt.exec call' s)
  | _, .empty => C.quiet .pure
  | s, .expression e => C.bind (Expr.eval_congr C hc s e) fun _ => C.quiet .pure
  | s, .declare _ ds => C.bind (Declarator.execAll_congr C hc s _ ds) fun _ => C.quiet .pure
  | _, .function .. => C.quiet .pure
  | _, .ret none => C.quiet .pure
  | s, .ret (some e) => C.bind (Expr.eval_congr C hc s e) fun _ => C.quiet .pure
  | s, .ifElse test consequent (some alternate) => by
    refine C.bind (Expr.eval_congr C hc s test) fun v => ?_
    split
    · exact Stmt.exec_congr s consequent
    · exact Stmt.exec_congr s alternate
  | s, .ifElse test consequent none => by
    refine C.bind (Expr.eval_congr C hc s test) fun v => ?_
    split
    · exact Stmt.exec_congr s consequent
    · exact C.quiet .pure
  | s, .throw e =>
    C.bind (Expr.eval_congr C hc s e) fun v => C.quiet (.bind (Run.textOf_quiet v) fun _ => .fail trivial)
  | s, .block statements =>
    C.bind (C.inward (Run.newInnerScope_inward s none)) fun inner =>
      C.bind (C.inward (Run.hoist_inward inner statements)) fun _ => Stmt.execAll_congr inner statements

theorem Stmt.execAll_congr : ∀ (s : Ref .scope) (statements : List Stmt),
    R (Stmt.execAll call s statements) (Stmt.execAll call' s statements)
  | _, [] => C.quiet .pure
  | s, stmt :: rest => C.bind (Stmt.exec_congr s stmt) fun c => by
    cases c with
    | returned v => exact C.quiet .pure
    | normal => exact Stmt.execAll_congr s rest

end

theorem Stmt.runAll_congr (s : Ref .scope) (statements : List Stmt) :
    R (Stmt.runAll call s statements) (Stmt.runAll call' s statements) := by
  fun_induction Stmt.runAll call s statements with
  | case1 => exact C.quiet .pure
  | case2 e => exact C.bind (Expr.eval_congr C hc s e) fun _ => C.quiet .pure
  | case3 stmt rest hlast ih =>
    -- the other evaluator goes through the same clause, since that depends on the statements
    rw [Stmt.runAll.eq_3 call' s stmt rest hlast]
    refine C.bind (Stmt.exec_congr C hc s stmt) fun c => ?_
    cases c with
    | returned v => exact C.quiet .pure
    | normal => exact ih

theorem Program.run_congr (p : Program) (s : Ref .scope) : R (p.run call s) (p.run call' s) :=
  C.bind (C.inward (Run.hoist_inward s p.body)) fun _ => Stmt.runAll_congr C hc s p.body

theorem Body.run_congr (s : Ref .scope) (body : Body) : R (body.run call s) (body.run call' s) := by
  cases body with
  | value e => exact Expr.eval_congr C hc s e
  | block statements =>
    refine C.bind (C.bind (C.inward (Run.hoist_inward s statements)) fun _ =>
      Stmt.execAll_congr C hc s statements) fun c => ?_
    cases c with
    | returned v => exact C.quiet .pure
    | normal => exact C.quiet .pure

theorem Closure.run_congr (c : Closure) (this : Value) (arguments : Array Value) :
    R (c.run call this arguments) (c.run call' this arguments) := by
  refine C.bind (C.inward (Run.newInnerScope_inward _ _)) fun s =>
    C.bind (C.inward (Run.bindParams_inward s arguments 0 c.params)) fun _ => ?_
  -- only functions that are no arrows have `arguments`
  split
  · exact C.bind (C.inward (Run.bindArguments_inward s arguments)) fun _ =>
      Body.run_congr C hc s c.body
  · exact Body.run_congr C hc s c.body

end

end ScriptModules
