import ScriptModules.Proofs.Agreement
import ScriptModules.Proofs.Conduct
import ScriptModules.Proofs.Deferral

/-!
# The conduct of machines

What every operation has, everything that a machine does has (`Machine.ofFuel_conducts`). Evaluation
follows the syntax tree, and needs of the tree only that the law admits the names in it; the text of
a module is a tidy tree, so its names are identifiers. The rest follows the machine: calls,
listeners and tasks use each other on the machine below, and the induction is on the fuel.
-/

namespace ScriptModules

set_option linter.unusedSectionVars false

namespace Conduct

variable {T : Terms} {R : ∀ {ε α : Type}, Run ε α → Prop} (C : Conduct T R)

/-! ### Evaluation -/

section

variable {call : CallSemantics} (hc : ∀ f this arguments, R (call f this arguments))

include C hc

theorem callValue (v : Value) (description : String) (this : Value) (arguments : Array Value) :
    R (callValue call v description this arguments) := by
  cases v with
  | function f => exact C.noticing (hc f this arguments)
  | _ => exact C.fail

theorem visit (callback : Value) (description : String) (l : Ref .list) (i : Nat)
    (results : Array Value) (items : List Value) :
    R (ListMethod.visit call callback description l i results items) := by
  induction items generalizing i results with
  | nil => exact C.pure
  | cons v rest ih => exact C.seq (C.callValue hc callback _ _ _) fun r => ih _ _

theorem listMethod (m : ListMethod) (l : Ref .list) (arguments : Array Value) :
    R (m.invoke call l arguments) := by
  cases m with
  | push => exact C.pushAll l arguments
  | join => exact C.joinItems l _
  | map =>
    exact C.seq (C.read fun _ _ => rfl) fun _ => C.seq (C.visit hc _ _ l _ _ _) fun _ =>
      C.seq (C.newList _) fun _ => C.pure
  | forEach =>
    exact C.seq (C.read fun _ _ => rfl) fun _ => C.seq (C.visit hc _ _ l _ _ _) fun _ => C.pure
  | indexOf => exact C.indexOfItem l _

mutual

/-- Expressions whose names are admitted. -/
theorem eval (s : Ref .scope) : ∀ e : Expr, T.Free ∨ e.Tidy → R (e.eval call s)
  | .literal _, _ => C.pure
  | .name _, h => C.lookup s (C.name h)
  | .this, _ => C.thisOf s
  | .list items, h => C.seq (evalAll s items h) fun _ => C.seq (C.newList _) fun _ => C.pure
  | .object properties, h =>
    C.seq (evalFields s properties h) fun _ => C.seq (C.newObject rfl) fun _ => C.pure
  | .function _ _ _, h => C.makeClosure s _ false (h.imp_right fun h => h.2)
  | .arrow _ _, h => C.makeClosure s _ true h
  | .unary .not e, h => C.seq (eval s e h) fun _ => C.pure
  | .unary .minus e, h => C.seq (eval s e h) fun v => C.seq (C.numberOf v) fun _ => C.pure
  | .unary .typeOf e, h => by
    cases e with
    | name x => exact C.seq (C.tryLookup s (C.name h)) fun _ => C.pure
    | _ => exact C.seq (eval s _ h) fun _ => C.pure
  | .binary op l r, h =>
    C.seq (eval s l (h.imp_right fun h => h.1)) fun a =>
      C.seq (eval s r (h.imp_right fun h => h.2)) fun b => C.apply op a b
  | .logical .and l r, h => C.seq (eval s l (h.imp_right fun h => h.1)) fun a => by
    split
    · exact eval s r (h.imp_right fun h => h.2)
    · exact C.pure
  | .logical .or l r, h => C.seq (eval s l (h.imp_right fun h => h.1)) fun a => by
    split
    · exact C.pure
    · exact eval s r (h.imp_right fun h => h.2)
  | .conditional test consequent alternate, h =>
    C.seq (eval s test (h.imp_right fun h => h.1)) fun v => by
    split
    · exact eval s consequent (h.imp_right fun h => h.2.1)
    · exact eval s alternate (h.imp_right fun h => h.2.2)
  | .assign op (.name x) e, h =>
    have hx : T.names x := C.name (h.imp_right fun h => h.1)
    C.seq (eval s e (h.imp_right fun h => h.2)) fun rhs =>
      C.seq (C.combine op rhs (C.lookup s hx)) fun v => C.seq (C.assign s v hx) fun _ => C.pure
  | .assign op (.member o key) e, h =>
    C.seq (eval s o (h.imp_right fun h => h.1)) fun target =>
      C.seq (eval s e (h.imp_right fun h => h.2)) fun rhs =>
        C.seq (C.combine op rhs (C.getMember target key)) fun v =>
          C.seq (C.setMember target key v) fun _ => C.pure
  | .assign op (.index o k) e, h =>
    C.seq (eval s o (h.imp_right fun h => h.1.1)) fun target =>
      C.seq (eval s k (h.imp_right fun h => h.1.2)) fun v => C.seq (C.textOf v) fun key =>
        C.seq (eval s e (h.imp_right fun h => h.2)) fun rhs =>
          C.seq (C.combine op rhs (C.getMember target key)) fun v =>
            C.seq (C.setMember target key v) fun _ => C.pure
  | .member o key, h => C.seq (eval s o h) fun v => C.getMember v key
  | .index o k, h =>
    C.seq (eval s o (h.imp_right fun h => h.1)) fun v =>
      C.seq (eval s k (h.imp_right fun h => h.2)) fun i =>
        C.seq (C.textOf i) fun key => C.getMember v key
  | .call callee arguments, h => by
    have harguments : T.Free ∨ Expr.AllTidy arguments := h.imp_right fun h => h.2
    -- the callee of a method call is its receiver and then a member of it
    cases callee with
    | member o key =>
      exact C.seq (eval s o (h.imp_right fun h => h.1)) fun this =>
        C.seq (C.getMember this key) fun f => C.seq (evalAll s arguments harguments) fun _ =>
          C.callValue hc f _ this _
    | index o k =>
      exact C.seq (eval s o (h.imp_right fun h => h.1.1)) fun this =>
        C.seq (eval s k (h.imp_right fun h => h.1.2)) fun v => C.seq (C.textOf v) fun key =>
          C.seq (C.getMember this key) fun f => C.seq (evalAll s arguments harguments) fun _ =>
            C.callValue hc f _ this _
    | _ =>
      exact C.seq (eval s _ (h.imp_right fun h => h.1)) fun f =>
        C.seq (evalAll s arguments harguments) fun _ => C.callValue hc f _ _ _

theorem evalAll (s : Ref .scope) :
    ∀ es : List Expr, T.Free ∨ Expr.AllTidy es → R (Expr.evalAll call s es)
  | [], _ => C.pure
  | e :: rest, h =>
    C.seq (eval s e (h.imp_right fun h => h.1)) fun _ =>
      C.seq (evalAll s rest (h.imp_right fun h => h.2)) fun _ => C.pure

theorem evalFields (s : Ref .scope) :
    ∀ ps : List Property, T.Free ∨ Property.AllTidy ps → R (Property.evalAll call s ps)
  | [], _ => C.pure
  | .mk _ e :: rest, h =>
    C.seq (eval s e (h.imp_right fun h => h.1)) fun _ =>
      C.seq (evalFields s rest (h.imp_right fun h => h.2)) fun _ => C.pure

end

theorem declareAll (s : Ref .scope) {kind : DeclarationKind} (constant : Bool)
    (ds : List Declarator) (h : T.Free ∨ Declarator.AllTidy kind ds) :
    R (Declarator.execAll call s constant ds) := by
  induction ds with
  | nil => exact C.pure
  | cons d rest ih =>
    obtain ⟨name, _ | e⟩ := d
    · exact C.seq C.pure fun v =>
        C.seq (C.declare s v constant (C.name (h.imp_right fun h => h.1))) fun _ =>
          ih (h.imp_right fun h => h.2.2)
    · exact C.seq (C.eval hc s e (h.imp_right fun h => h.2.1)) fun v =>
        C.seq (C.declare s v constant (C.name (h.imp_right fun h => h.1))) fun _ =>
          ih (h.imp_right fun h => h.2.2)

mutual

/-- Statements whose names are admitted. -/
theorem exec : ∀ (s : Ref .scope) (stmt : Stmt), T.Free ∨ stmt.Tidy → R (stmt.exec call s)
  | _, .empty, _ => C.pure
  | s, .expression e, h => C.seq (C.eval hc s e h) fun _ => C.pure
  | s, .declare _ ds, h => C.seq (C.declareAll hc s _ ds h) fun _ => C.pure
  | _, .function .., _ => C.pure
  | _, .ret none, _ => C.pure
  | s, .ret (some e), h => C.seq (C.eval hc s e h) fun _ => C.pure
  | s, .ifElse test consequent (some alternate), h => by
    refine C.seq (C.eval hc s test (h.imp_right fun h => h.1)) fun v => ?_
    split
    · exact exec s consequent (h.imp_right fun h => h.2.1)
    · exact exec s alternate (h.imp_right fun h => h.2.2)
  | s, .ifElse test consequent none, h => by
    refine C.seq (C.eval hc s test (h.imp_right fun h => h.1)) fun v => ?_
    split
    · exact exec s consequent (h.imp_right fun h => h.2)
    · exact C.pure
  | s, .throw e, h => C.seq (C.eval hc s e h) fun v => C.seq (C.textOf v) fun _ => C.fail
  | s, .block statements, h =>
    C.seq (C.newInnerScope s none) fun inner => C.seq (C.hoist inner h) fun _ =>
      execAll inner statements h

theorem execAll : ∀ (s : Ref .scope) (statements : List Stmt),
    T.Free ∨ Stmt.AllTidy statements → R (Stmt.execAll call s statements)
  | _, [], _ => C.pure
  | s, stmt :: rest, h => C.seq (exec s stmt (h.imp_right fun h => h.1)) fun c => by
    cases c with
    | returned v => exact C.pure
    | normal => exact execAll s rest (h.imp_right fun h => h.2)

end

theorem runStatements (s : Ref .scope) (statements : List Stmt)
    (h : T.Free ∨ Stmt.AllTidy statements) : R (Stmt.runAll call s statements) := by
  fun_induction Stmt.runAll call s statements with
  | case1 => exact C.pure
  | case2 e => exact C.seq (C.eval hc s e (h.imp_right fun h => h.1)) fun _ => C.pure
  | case3 stmt rest _ ih =>
    refine C.seq (C.exec hc s stmt (h.imp_right fun h => h.1)) fun c => ?_
    cases c with
    | returned v => exact C.pure
    | normal => exact ih (h.imp_right fun h => h.2)

/-- A program in its root scope. -/
theorem program (s : Ref .scope) {p : Program} (h : T.Free ∨ p.Tidy) : R (p.run call s) :=
  C.seq (C.hoist s h) fun _ => C.runStatements hc s p.body h

theorem body (s : Ref .scope) {b : Body} (h : T.Free ∨ b.Tidy) : R (b.run call s) := by
  cases b with
  | value e => exact C.eval hc s e h
  | block statements =>
    refine C.seq (C.seq (C.hoist s h) fun _ => C.execAll hc s statements h) fun c => ?_
    cases c with
    | returned v => exact C.pure
    | normal => exact C.pure

theorem closure {c : Closure} (h : T.Free ∨ c.Tidy) (this : Value) (arguments : Array Value) :
    R (c.run call this arguments) := by
  refine C.seq (C.newInnerScope _ _) fun s =>
    C.seq (C.bindParams s arguments 0 (h.imp_right fun h => h.1)) fun _ => ?_
  -- only functions that are no arrows have `arguments`
  split
  · exact C.seq (C.bindArguments s arguments) fun _ => C.body hc s (h.imp_right fun h => h.2)
  · exact C.body hc s (h.imp_right fun h => h.2)

omit hc in
theorem enterCall (h : Ref .heap) : R (Run.enterCall h) := by
  refine C.calm (fun w scopes => ?_) (fun w => ?_) (.of_spares fun w => ?_) (.of_same fun w => ?_)
  · have hdepth : (w.withScopes scopes).depth h = w.depth h := rfl
    unfold Run.enterCall
    rw [hdepth]
    split <;> rfl
  · unfold Run.enterCall
    split
    · exact .refl w
    · exact .of_same rfl rfl rfl rfl
  · unfold Run.enterCall
    split
    · exact .refl w
    · exact .setDepth w h _
  · unfold Run.enterCall
    split <;> exact ⟨rfl, rfl⟩

omit hc in
/-- A call counts on a heap, whose scopes are left alone. -/
theorem nested {α : Type} {x : Script α} (h : Ref .heap) (hx : R x) : R (Run.nested h x) :=
  C.seq (C.enterCall h) fun _ => C.andAlways hx
    (C.calm (fun _ _ => rfl) (fun _ => .of_same rfl rfl rfl rfl)
      (.of_spares fun w => .setDepth w h _) (.of_same fun _ => ⟨rfl, rfl⟩))

theorem invokeClosure {c : Closure} (h : T.Free ∨ c.Tidy) (this : Value)
    (arguments : Array Value) : R (c.invoke call this arguments) :=
  C.seq (C.heapOf c.scope) fun heap => C.nested heap (C.closure hc h this arguments)

theorem evaluateProgram {p : Program} (h : T.Free ∨ p.Tidy) (b : Bindings) :
    R (p.evaluate call b) := by
  unfold Program.evaluate
  split
  · exact C.seq (C.newRootScope b _) fun s => C.program hc s h
  · exact C.onOwnHeap b fun _ s => C.program hc s h

/-- The text of a script, whose names are identifiers. -/
theorem evaluate (e : Engine) (script text : String) (b : Bindings) :
    R (e.evaluate call script text b) := by
  have compiled : R (do
      let p ← Run.ofExcept (Program.compile script text)
      p.evaluate call b) :=
    C.bind_ofExcept fun p hp => C.evaluateProgram hc (.inr (Program.tidy_of_compile hp)) b
  unfold Engine.evaluate
  split
  · exact C.seq (C.log rfl) fun _ => compiled
  · exact compiled

end

/-! ### Queues and containers -/

/-- The tasks that wait after a context has got another queue. -/
theorem mem_of_waitingTasks {w : World} {c c' : Ref .context} {t : Task}
    {f : Context → Context} (ht : t ∈ (w.changeContext c f).waitingTasks c') :
    t ∈ w.waitingTasks c' ∨ ∃ x, w.context? c' = some x ∧ c = c' ∧ t ∈ (f x).queue := by
  rw [World.waitingTasks, World.context?_changeContext] at ht
  by_cases hc : c = c'
  · rw [if_pos hc] at ht
    subst hc
    cases hx : w.context? c with
    | none =>
      rw [hx] at ht
      cases ht
    | some x =>
      rw [hx] at ht
      exact .inr ⟨x, rfl, rfl, ht⟩
  · rw [if_neg hc] at ht
    exact .inl ht

end Conduct

namespace World

/-- Taking a task from a queue changes contexts and the history only. -/
theorem dequeue_frame (w : World) (c : Ref .context) :
    ∃ contexts history, (w.dequeue c).2 = { w with contexts := contexts, history := history } := by
  rcases hd : w.dequeue c with ⟨_ | t, w'⟩
  · obtain ⟨-, rfl⟩ := dequeue_none hd
    exact ⟨w'.contexts, w'.history, rfl⟩
  · obtain ⟨x, rest, -, -, rfl⟩ := dequeue_some hd
    exact ⟨_, _, rfl⟩

end World

namespace Terms.Holds

variable {T : Terms} {w w' : World} {c : Ref .context} {t : Task}

/-- A task that is taken from a queue is admitted, since it has waited there. -/
theorem task_of_dequeue (hw : T.Holds w) (hd : w.dequeue c = (some t, w')) : T.task t := by
  obtain ⟨x, rest, hx, hq, -⟩ := World.dequeue_some hd
  exact hw.waiting c t (by rw [World.waitingTasks_eq hx, hq]; exact List.mem_cons_self)

/-- Taking a task leaves no task that has not waited before, and starts the one that is taken. -/
theorem dequeue (hw : T.Holds w) (c : Ref .context) : T.Holds (w.dequeue c).2 := by
  rcases hd : w.dequeue c with ⟨_ | t, w'⟩
  · rwa [(World.dequeue_none hd).2]
  · have htask := hw.task_of_dequeue hd
    obtain ⟨x, rest, hx, hq, rfl⟩ := World.dequeue_some hd
    refine hw.step (fun _ _ => .inl) (fun c' t' ht' => .inl ?_) (fun c' t' ht' => ?_) rfl
    · rcases Conduct.mem_of_waitingTasks (w := w) ht' with hbefore | ⟨y, -, rfl, hrest⟩
      · exact hbefore
      · rw [World.waitingTasks_eq hx, hq]
        exact List.mem_cons_of_mem t hrest
    · rcases List.mem_cons.1 ht' with heq | ht'
      · cases heq
        exact .inr htask
      · exact .inl ht'

end Terms.Holds

namespace Conduct

variable {T : Terms} {R : ∀ {ε α : Type}, Run ε α → Prop} (C : Conduct T R)

section

include C

theorem enqueue {ε : Type} (c : Ref .context) {t : Task} (ht : T.task t) :
    R (Run.change (·.enqueue c t) : Run ε Unit) := by
  refine C.inert ⟨fun _ _ => rfl, fun w hw => hw.step (fun _ _ => .inl) (fun c' t' ht' => ?_)
    (fun c' t' ht' => .inl ?_) rfl, fun _ => ⟨rfl, fun _ _ => id⟩,
    .of_spares fun _ => .of_same rfl rfl rfl rfl rfl rfl, .of_same fun _ => ⟨rfl, rfl⟩⟩
  · rcases mem_of_waitingTasks (w := w) ht' with ht' | ⟨x, hx, -, ht'⟩
    · exact .inl ht'
    · rcases List.mem_append.1 ht' with ht' | ht'
      · exact .inr (hw.waiting c' t' (by rwa [World.waitingTasks_eq hx]))
      · obtain rfl := List.mem_singleton.1 ht'
        exact .inr ht
  · rcases List.mem_cons.1 ht' with heq | ht'
    · cases heq
    · exact ht'

/-- A task that is taken from a queue has waited there. -/
theorem dequeue {ε α : Type} (c : Ref .context) {f : Option Task → Run ε α} (hnone : R (f none))
    (hsome : ∀ t, T.task t → R (f (some t))) : R (Run.changeGet (·.dequeue c) >>= f) := by
  refine C.bind (C.inert ⟨fun w scopes => ?_, fun w hw => hw.dequeue c, fun w => ?_,
    .of_spares fun w => ?_, .of_same fun w => ?_⟩) fun next ⟨w, w', hw, hd⟩ => ?_
  · have hcontext : (w.withScopes scopes).context? c = w.context? c := rfl
    unfold Run.changeGet World.dequeue
    simp only [hcontext]
    rcases w.context? c with _ | ⟨_ | ⟨t, rest⟩, running, heap, holders⟩ <;> rfl
  · change w.Retains (w.dequeue c).2
    obtain ⟨contexts, history, hframe⟩ := w.dequeue_frame c
    rw [hframe]
    exact ⟨rfl, fun _ _ => id⟩
  · change w.Spares (w.dequeue c).2
    obtain ⟨contexts, history, hframe⟩ := w.dequeue_frame c
    rw [hframe]
    exact .of_same rfl rfl rfl rfl rfl rfl
  · change (w.dequeue c).2.objects = w.objects ∧ (w.dequeue c).2.flags = w.flags
    obtain ⟨contexts, history, hframe⟩ := w.dequeue_frame c
    rw [hframe]
    exact ⟨rfl, rfl⟩
  · cases next with
    | none => exact hnone
    | some t =>
      obtain ⟨hd', -⟩ := Prod.mk.inj hd
      exact hsome t (hw.task_of_dequeue (Prod.ext (Outcome.done.inj hd') rfl))

end

section

variable {notify : Listener → Value → Hosted Unit} (hn : ∀ l v, R (notify l v))

include C hn

theorem notifyAll (c : Ref .container) (v : Value) (listeners : List Listener) :
    R (Run.notifyAll notify c v listeners) := by
  induction listeners with
  | nil => exact C.pure
  | cons l rest ih =>
    exact C.seq (C.mark nofun) fun _ => C.seq (C.attempt (hn l v)) fun _ =>
      C.seq (C.mark nofun) fun _ => C.seq ih fun _ => C.pure

theorem completeBy (c : Ref .container) (v : Value) : R (Run.completeBy notify c v) := by
  refine C.seq (C.read fun _ _ => rfl) fun x => ?_
  split
  · exact C.fail
  · refine C.seq (C.still (fun _ _ => rfl) (fun w => ?_) fun _ => ⟨rfl⟩) fun _ =>
      C.seq (C.notifyAll hn c v _) fun _ => C.seq (C.mark nofun) fun _ => C.ofExcept
    exact Terms.Calm.mark nofun (.of_same rfl rfl rfl rfl)

theorem addListener (c : Ref .container) (l : Listener) : R (Run.addListener notify c l) := by
  refine C.seq (C.read fun _ _ => rfl) fun x => ?_
  split
  · refine C.still (fun _ _ => rfl) (fun w => ?_) fun _ => ⟨rfl⟩
    exact Terms.Calm.mark nofun (.of_same rfl rfl rfl rfl)
  · exact C.seq (C.mark nofun) fun _ => C.seq (C.attempt (hn l _)) fun _ =>
      C.seq (C.mark nofun) fun _ => C.ofExcept

end

section

variable {drain : Ref .context → Hosted Unit} (hd : ∀ c, R (drain c))

include C hd

theorem schedule (c : Ref .context) {t : Task} (ht : T.task t) : R (Run.schedule drain c t) := by
  refine C.seq (C.enqueue c ht) fun _ => C.seq (C.read fun _ _ => rfl) fun running => ?_
  split
  · exact C.pure
  · refine C.seq (C.still (fun _ _ => rfl) (fun w => ?_) fun _ => ⟨rfl⟩) fun _ =>
      C.andAlways (hd c) (C.still (fun _ _ => rfl) (fun w => ?_) fun _ => ⟨rfl⟩)
    · change Terms.Calm w ((w.setRunning c true).hold c)
      refine .changeContext ?_ c (.changeContext ?_ c (.refl w)) <;> exact fun _ => rfl
    · change Terms.Calm w ((w.setRunning c false).letGo c)
      refine .changeContext ?_ c (.changeContext ?_ c (.refl w)) <;> exact fun _ => rfl

theorem scheduleByHandle (c : Ref .context) {t : Task} (ht : T.task t) :
    R (Run.scheduleByHandle drain c t) := by
  refine C.seq (C.read fun _ _ => rfl) fun alive => ?_
  split
  · exact C.schedule hd c ht
  · exact C.fail

theorem drainBy {runTask : Task → Hosted Unit} (ht : ∀ t, T.task t → R (runTask t))
    (c : Ref .context) : R (Run.drainBy runTask drain c) :=
  C.dequeue c C.pure fun t hadmitted => C.seq (C.attempt (ht t hadmitted)) fun _ =>
    C.seq (C.mark nofun) fun _ => C.seq (C.attempt (hd c)) fun _ => C.ofExcept

end

/-! ### The host -/

section

include C

mutual

/-- Values that the host makes; none of its functions is a closure or a `use`. -/
theorem make {ε : Type} : ∀ b : Blueprint, R (b.make : Run ε Value)
  | .undefined | .null | .boolean _ | .number _ | .text _ => C.pure
  | .list items => C.seq (makeAll items) fun _ => C.seq (C.newList _) fun _ => C.pure
  | .object properties =>
    C.seq (makeFields properties) fun _ => C.seq (C.newObject rfl) fun _ => C.pure
  | .function _ _ none => C.seq (C.newFunction trivial rfl) fun _ => C.pure
  | .function _ _ (some returns) =>
    C.seq (make returns) fun _ => C.seq (C.newFunction trivial rfl) fun _ => C.pure
  | .pending => C.seq (C.newContainer _) fun _ => C.pure
  | .resolved result => C.seq (make result) fun _ => C.seq (C.newContainer _) fun _ => C.pure
  | .saved _ => C.read fun _ _ => rfl
  | .numbered _ => C.read fun _ _ => rfl

theorem makeAll {ε : Type} : ∀ bs : List Blueprint, R (Blueprint.makeAll bs : Run ε _)
  | [] => C.pure
  | b :: rest => C.seq (make b) fun _ => C.seq (makeAll rest) fun _ => C.pure

theorem makeFields {ε : Type} :
    ∀ bs : List (String × Blueprint), R (Blueprint.makeFields bs : Run ε _)
  | [] => C.pure
  | (_, b) :: rest => C.seq (make b) fun _ => C.seq (makeFields rest) fun _ => C.pure

end

theorem unwrap (script : String) (v : Value) : R (Run.unwrap script v) := by
  have hin : ∀ fuel v, R (Run.unwrapIn script fuel v) := by
    intro fuel
    induction fuel with
    | zero => exact fun v => by cases v <;> first | exact C.exhausted | exact C.pure
    | succ fuel ih =>
      intro v
      cases v with
      | container c =>
        refine C.seq (C.read fun _ _ => rfl) fun result => ?_
        split
        · exact ih _
        · exact C.fail
      | _ => exact C.pure
  exact C.seq (C.read fun _ _ => rfl) fun _ => hin _ v

theorem answering {x : Hosted Unit} (hx : R x) : R (Run.answering x) :=
  C.seq (C.mark nofun) fun _ => C.seq (C.attempt hx) fun _ => C.seq (C.mark nofun) fun _ => C.pure

theorem onContext {f : Ref .context → Hosted Answer} (hf : ∀ c, R (f c)) :
    R (Run.onContext f) := by
  refine C.seq (C.read fun _ _ => rfl) fun c => ?_
  split
  · exact hf _
  · exact C.pure

theorem onHandle {f : Ref .context → Hosted Answer} (hf : ∀ c, R (f c)) : R (Run.onHandle f) := by
  refine C.seq (C.read fun _ _ => rfl) fun c => ?_
  split
  · exact hf _
  · exact C.pure

theorem onNumbered (i : Nat) {f : Ref .container → Hosted Answer} (hf : ∀ c, R (f c)) :
    R (Run.onNumbered i f) := by
  refine C.seq (C.read fun _ _ => rfl) fun c => ?_
  split
  · exact hf _
  · exact C.pure

omit C in
/-- Tasks that are dropped are gone. -/
theorem calm_clearQueue (w : World) (c : Ref .context) : Terms.Calm w (w.clearQueue c) := by
  refine Terms.Calm.mark nofun ⟨rfl, fun c' t ht => ?_, rfl, fun _ _ => id⟩
  rcases mem_of_waitingTasks ht with hbefore | ⟨x, -, -, hrest⟩
  · exact hbefore
  · cases hrest

theorem clearTasks (c : Ref .context) : R (Run.clearTasks c) :=
  C.seq (C.read fun _ _ => rfl) fun _ =>
    C.seq (C.still (fun _ _ => rfl) (fun w => calm_clearQueue w c) fun _ => ⟨rfl⟩) fun _ => C.pure

theorem dropContext (c : Ref .context) : R (Run.dropContext c) := by
  refine C.seq (C.still (fun _ _ => rfl) (fun w => ?_) fun _ => ⟨rfl⟩) fun _ => C.pure
  have hgone : Terms.Calm w (w.letGo c) := by
    refine .changeContext ?_ c (.refl w)
    exact fun _ => rfl
  exact ⟨hgone.functions, hgone.waiting, hgone.environments, hgone.started⟩

/-- A gathering is told that a module failed. -/
theorem forsake {ε : Type} (l : Listener) : R (Run.change (·.forsake l) : Run ε Unit) := by
  cases l with
  | gather g slot => exact C.mark nofun
  | _ => exact C.still (fun _ _ => rfl) .refl fun _ => ⟨rfl⟩

theorem finish (fails : Option HostError) : R (Routine.finish fails) := by
  cases fails with
  | none => exact C.pure
  | some e => exact C.seq (C.mark nofun) fun _ => C.fail

end

end Conduct

/-! ### Machines -/

/-- The activities of a machine have a property. -/
structure Machine.Conducts (m : Machine) (R : ∀ {ε α : Type}, Run ε α → Prop) : Prop where
  call : ∀ f this arguments, R (m.call f this arguments)
  notify : ∀ l v, R (m.notify l v)
  drain : ∀ c, R (m.drain c)

namespace Conduct

variable {T : Terms} {R : ∀ {ε α : Type}, Run ε α → Prop} (C : Conduct T R) {m : Machine}
  (hm : m.Conducts R)

include C hm

theorem scheduleOn (c : Ref .context) {t : Task} (ht : T.task t) : R (m.schedule c t) :=
  C.schedule hm.drain c ht

theorem complete (c : Ref .container) (v : Value) : R (m.complete c v) := C.completeBy hm.notify c v

theorem listen (c : Ref .container) (l : Listener) : R (m.listen c l) := C.addListener hm.notify c l

theorem callFor (script : String) (f : Ref .function) (this : Value) (arguments : Array Value) :
    R (m.callFor script f this arguments) :=
  C.inName (hm.call f this arguments)

/-! ### `use` and timers -/

theorem useCallback (site : UseSite) (f : Ref .function) : R (site.useCallback m f) :=
  C.seq (C.newContainer _) fun _ => C.seq (C.siteScript site) fun _ => C.liveContext site
    (C.seq (C.scheduleOn hm site.context trivial) fun _ => C.pure)

theorem runAll (site : UseSite) (g : Ref .gathering) (slot : Nat) {sources : List ModuleSource}
    (h : ∀ source ∈ sources,
      T.modules site.environment site.context source (source.bindingsFrom site.globals)) :
    R (site.runAll m site.context g slot sources) := by
  induction sources generalizing slot with
  | nil => exact C.pure
  | cons source rest ih =>
    obtain ⟨hsource, hrest⟩ := List.forall_mem_cons.1 h
    exact C.seq (C.scheduleOn hm site.context hsource) fun _ => ih (slot + 1) hrest

theorem useModules {site : UseSite} (h : T.sites site) (dependencies : List String)
    (f : Ref .function) : R (site.useModules m dependencies f) := by
  refine C.liveEnvironment site fun e he => C.liveContext site
    (C.seq (C.lookupContext e.resolver site.globals) fun start =>
      C.bind (C.findAll e.resolver start dependencies) fun sources hfound => ?_)
  -- what is found may run where the dependencies of this site do
  have hsources : ∀ source ∈ sources,
      T.modules site.environment site.context source (source.bindingsFrom site.globals) := by
    obtain ⟨w, w', -, hfound⟩ := hfound
    have hcomes := e.resolver.findAll_comes start dependencies w
    rw [hfound] at hcomes
    clear hfound
    induction hcomes with
    | nil => exact List.forall_mem_nil _
    | cons hname _ ih => exact List.forall_mem_cons.2 ⟨C.terms.load h he hname, ih⟩
  exact C.seq (C.siteScript site) fun _ => C.seq (C.openGathering _ _ _ _) fun opened =>
    C.seq (C.runAll hm site opened.1 0 hsources) fun _ => C.pure

theorem applyUse {site : UseSite} (h : T.sites site) (arguments : Array Value) :
    R (site.apply m arguments) := by
  unfold UseSite.apply
  split
  · exact C.fail
  · exact C.seq (C.callbackOf _) fun f => C.useCallback hm site f
  · refine C.seq (C.callbackOf _) fun f => C.seq (C.dependencyNames _) fun names => ?_
    split
    · exact C.useCallback hm site f
    · exact C.useModules hm h _ f

theorem timer (t : Timer) (context : Ref .context) (arguments : Array Value) :
    R (t.invoke m context arguments) := by
  unfold Timer.invoke
  split
  · exact C.seq (C.mapError (C.scheduleByHandle hm.drain context trivial)) fun _ => C.pure
  · exact C.fail

/-- Anything that can be called. -/
theorem callable {f : Callable} (h : T.callable f) (this : Value) (arguments : Array Value) :
    R (f.invoke m this arguments) := by
  cases f with
  | closure c => exact C.invokeClosure hm.call h this arguments
  | listMethod method l => exact C.listMethod hm.call method l arguments
  | textMethod method s => exact C.textMethod method s arguments
  | console method script => exact C.consoleMethod method script arguments
  | timer t context => exact C.raising (C.timer hm t context arguments)
  | use site =>
    exact C.raising (C.seq (C.mapError (C.applyUse hm h arguments)) fun _ => C.pure)
  | host f => exact C.raising (C.hostFunction f this arguments)

theorem invoke (f : Ref .function) (this : Value) (arguments : Array Value) :
    R (m.invoke f this arguments) := by
  refine C.bind_read (fun _ _ => rfl) fun x ⟨w, hw, hx⟩ => ?_
  cases x with
  | none => exact C.pure
  | some x =>
    exact C.seq (C.mark nofun) fun _ =>
      C.andAlways (C.callable hm (hw.functions f x hx) this arguments) (C.mark nofun)

/-! ### Listeners -/

theorem gather (g : Ref .gathering) (slot : Nat) (v : Value) : R (m.gather g slot v) := by
  refine C.seq (C.still (fun _ _ => rfl) (fun w => ?_) fun _ => ⟨rfl⟩) fun _ =>
    C.seq (C.read fun _ _ => rfl) fun x => ?_
  · exact Terms.Calm.mark nofun (.of_same rfl rfl rfl rfl)
  · split
    · split
      · exact C.seq (C.mark nofun) fun _ => C.seq (C.attempt (C.callFor hm _ _ _ _)) fun _ =>
          C.seq (C.mark nofun) fun _ => C.seq C.ofExcept fun _ => C.complete hm _ _
      · exact C.pure
    · exact C.pure

theorem perform (a : Action) : R (a.perform m) := by
  cases a with
  | newContainer =>
    exact C.seq (C.seq (C.newContainer _) fun _ => C.still (fun _ _ => rfl)
      (fun _ => .of_same rfl rfl rfl rfl) fun _ => ⟨rfl⟩) fun _ => C.pure
  | complete i v | callback i v =>
    exact C.seq (C.make v) fun v => C.onNumbered i fun c => C.answering (C.complete hm c v)
  | chain i j =>
    exact C.onNumbered i fun target => C.onNumbered j fun source =>
      C.answering (C.listen hm source _)
  | listen i r => exact C.onNumbered i fun c => C.answering (C.listen hm c _)
  | result i =>
    refine C.onNumbered i fun c => C.read fun w scopes => ?_
    have hresult : (w.withScopes scopes).result? c = w.result? c := rfl
    rw [hresult]
    cases w.result? c with
    | none => rfl
    | some v => exact congrArg Answer.value (v.pictureIn_withScopes w scopes _ _)
  | isCompleted i => exact C.onNumbered i fun c => C.read fun _ _ => rfl
  | same i j => exact C.read fun _ _ => rfl
  | adapt i =>
    refine C.onNumbered i fun c => C.seq (C.attempt (C.unwrap _ _)) fun r =>
      C.read fun w scopes => ?_
    cases r with
    | ok v => exact congrArg Answer.value (v.pictureIn_withScopes w scopes _ _)
    | error e => rfl
  | schedule r =>
    refine C.seq (C.read fun _ _ => rfl) fun c => ?_
    split
    · exact C.answering (C.scheduleOn hm _ trivial)
    · exact C.pure
  | scheduleByHandle r =>
    exact C.onHandle fun c => C.answering (C.scheduleByHandle hm.drain c trivial)
  | pending => exact C.onContext fun c => C.read fun _ _ => rfl
  | isRunning => exact C.onContext fun c => C.read fun _ _ => rfl
  | clear => exact C.onContext fun c => C.clearTasks c
  | upgrade => exact C.onHandle fun c => C.read fun _ _ => rfl
  | drop => exact C.onContext fun c => C.dropContext c

theorem performAll (tag : Json) (actions : List Action) :
    R (Routine.performAll m tag actions) := by
  induction actions with
  | nil => exact C.pure
  | cons a rest ih => exact C.seq (C.perform hm a) fun _ => C.seq (C.log rfl) fun _ => ih

theorem hear (v : Value) (r : Routine) : R (r.hear m v) := by
  obtain ⟨tag, actions, fails⟩ := r
  exact C.seq (C.pictureOf v) fun _ => C.seq (C.log rfl) fun _ =>
    C.seq (C.performAll hm tag actions) fun _ => C.finish fails

theorem tell (l : Listener) (v : Value) : R (m.tell l v) := by
  cases l with
  | complete c => exact C.complete hm c v
  | gather g slot => exact C.gather hm g slot v
  | deliver tag fails =>
    exact C.seq (C.pictureOf v) fun _ => C.seq (C.log rfl) fun _ => C.finish fails
  | routine r => exact C.hear hm v r

/-! ### Tasks -/

theorem handOn (then_ : Listener) (r : Except HostError Value) : R (m.handOn then_ r) := by
  unfold Machine.handOn
  split
  · exact C.listen hm _ _
  · exact hm.notify _ _
  · exact C.seq (C.forsake then_) fun _ => C.fail

theorem evaluateModule {r : Ref .environment} {context : Ref .context} {source : ModuleSource}
    {globals : Bindings} (h : T.modules r context source globals) (arguments : Bindings)
    (then_ : Listener) : R (m.evaluateModule r context source globals arguments then_) := by
  refine C.seq (C.read fun _ _ => rfl) fun e => ?_
  split
  · exact C.handOn hm _ _
  · next e =>
    refine C.seq (C.attempt ?_) fun r => C.handOn hm _ r
    exact C.seq C.freshExports fun x => C.seq (C.moduleBindings r e arguments x h) fun b =>
      C.seq (C.inName (C.evaluate hm.call e.engine _ _ b)) fun v => C.read fun _ _ => rfl

theorem runTask {t : Task} (h : T.task t) : R (m.runTask t) := by
  cases t with
  | module e context source globals arguments then_ => exact C.evaluateModule hm h arguments then_
  | useCallback f this script c =>
    exact C.seq (C.callFor hm _ _ _ _) fun _ => C.complete hm _ _
  | timer t f arguments => exact C.seq (C.callFor hm _ _ _ _) fun _ => C.pure
  | routine r =>
    obtain ⟨tag, actions, fails⟩ := r
    exact C.seq (C.log rfl) fun _ => C.seq (C.performAll hm tag actions) fun _ =>
      C.seq (C.log rfl) fun _ => C.finish fails

end Conduct

/-- **What every operation has, a machine of any fuel has.** -/
theorem Machine.ofFuel_conducts {T : Terms} {R : ∀ {ε α : Type}, Run ε α → Prop}
    (C : Conduct T R) (n : Nat) : (ofFuel n).Conducts R := by
  induction n with
  | zero => exact ⟨fun _ _ _ => C.exhausted, fun _ _ => C.exhausted, fun _ => C.exhausted⟩
  | succ n ih =>
    exact ⟨C.invoke ih, C.tell ih, C.drainBy ih.drain fun t ht => C.runTask ih ht⟩

end ScriptModules
