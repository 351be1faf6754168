import ScriptModules.Proofs.Constants

/-!
# Where declarations land

A declaration makes a variable of the scope in which it is executed. A branch of an `if` is executed
in the scope of the `if`, and a block in a scope of its own, whatever the kind of declaration that
stands in it. So `Stmt.Declares` counts the blocks between a statement and the declaration that its
run comes to: without one, the variable is one of the body in which the statement stands, and
otherwise it is one of the innermost of these blocks.

A variable stays where it landed (`World.Passage.local_kept`). A name means it in every scope from
which nothing nearer is declared (`World.LooksTo`), and no scope outside a block looks into it
(`World.Passage.row_lt_of_mem_chain`). `Stmt.declared_variable_lasts` puts this together.
-/

namespace ScriptModules

/-! ### The scope that a name is looked for in -/

namespace World

variable {w w' : World} {r s t : Ref .scope} {x : Scope} {v : Variable} {name : String}
  {es : List Effect}

/-- **A scope looks to another for a name:** the second lies on the chain of the first, and no scope
before it declares the name. -/
def LooksTo (w : World) (r t : Ref .scope) (name : String) : Prop :=
  ∃ before x after, w.scopeChain r = before ++ (t, x) :: after ∧
    ∀ e ∈ before, e.2.locals.get? name = none

/-- A scope looks to itself first. -/
theorem LooksTo.self (hx : w.scopes.get? t = some x) (name : String) : w.LooksTo t t name := by
  obtain ⟨after, hchain⟩ : ∃ after, w.scopeChain t = (t, x) :: after := by
    rw [scopeChain, chainFrom, hx]
    exact ⟨_, rfl⟩
  exact ⟨[], x, after, hchain, fun _ he => absurd he List.not_mem_nil⟩

/-- Where more scopes can be gone through, and there are more, a chain can only go on. -/
theorem chainFrom_prefix_addScope (w : World) (y : Scope) {n m : Nat} (h : n ≤ m) (s : Ref .scope) :
    w.chainFrom n s <+: (w.addScope y).chainFrom m s := by
  induction n generalizing m s with
  | zero => exact List.nil_prefix
  | succ n ih =>
    obtain ⟨m, rfl⟩ := Nat.exists_eq_succ_of_ne_zero (Nat.ne_zero_of_lt h)
    rw [chainFrom, chainFrom]
    cases hs : w.scopes.get? s with
    | none => exact List.nil_prefix
    | some x =>
      have hkept : (w.addScope y).scopes.get? s = some x := Table.get?_add_of_get?_eq_some y hs
      simp only [hkept, List.prefix_cons_inj]
      cases x.parent with
      | none => exact List.nil_prefix
      | some p => exact ih (Nat.le_of_succ_le_succ h) p

/-- **What is made inside a scope looks where that looks,** until it declares the name itself. -/
theorem LooksTo.inner (h : w.LooksTo r t name) (hp : x.parent = some r)
    (hnone : x.locals.get? name = none) (hr : r.row < w.scopes.size) :
    (w.addScope x).LooksTo w.scopes.fresh t name := by
  obtain ⟨before, y, after, hchain, hfree⟩ := h
  have hle : r.row + 1 ≤ w.scopes.fresh.row := hr
  obtain ⟨more, hmore⟩ := w.chainFrom_prefix_addScope x hle r
  have hchain' : (w.addScope x).scopeChain w.scopes.fresh =
      (w.scopes.fresh, x) :: before ++ (t, y) :: (after ++ more) := by
    have hx : (w.addScope x).scopes.get? w.scopes.fresh = some x := Table.get?_add_fresh _ _
    rw [scopeChain, chainFrom, hx]
    simp only [hp]
    rw [← hmore, ← scopeChain, hchain]
    simp
  refine ⟨(w.scopes.fresh, x) :: before, y, after ++ more, hchain', fun e he => ?_⟩
  rcases List.mem_cons.1 he with rfl | he
  · exact hnone
  · exact hfree e he

/-- A variable of a scope is the nearest declaration for all scopes that look to this one. -/
theorem LooksTo.declaration? (h : w.LooksTo r t name) (hv : w.local? t name = some v) :
    w.declaration? r name = some (t, v) := by
  obtain ⟨before, y, after, hchain, hfree⟩ := h
  have hy : w.scopes.get? t = some y := by
    refine get?_of_mem_chainFrom (n := r.row + 1) (s := r) ?_
    rw [← scopeChain, hchain]
    exact List.mem_append_right _ List.mem_cons_self
  have hlocal : y.locals.get? name = some v := by
    rw [local?, hy] at hv
    exact hv
  rw [World.declaration?, hchain, List.findSome?_eq_some_iff]
  refine ⟨before, (t, y), after, rfl, ?_, fun e he => Option.map_eq_none_iff.2 (hfree e he)⟩
  exact Option.map_eq_some_iff.2 ⟨v, hlocal, rfl⟩

/-- **A name means a variable of a scope,** from every scope that looks to this one: that is what a
reference gives, without an error, and where an assignment goes, unless the variable is constant.
No other scope gets a variable by the assignment. -/
structure Serves (w : World) (t : Ref .scope) (name : String) (v : Variable) : Prop where
  declared : w.local? t name = some v
  lookup : ∀ r, w.LooksTo r t name → Run.lookup r name w = (.done v.value, w)
  assign : ∀ r u, w.LooksTo r t name → v.constant = false →
    Run.assign r name u w = (.done (), w.setVariable t name ⟨u, false⟩)
  refuse : ∀ r u, w.LooksTo r t name → v.constant = true →
    Run.assign r name u w = (.failed (.wrongType "Assignment to constant variable"), w)

theorem serves_of_local? (hv : w.local? t name = some v) : w.Serves t name v where
  declared := hv
  lookup r hr := lookup_of_declaration? (hr.declaration? hv)
  assign r u hr hvariable := by
    unfold Run.assign
    rw [hr.declaration? hv]
    simp [hvariable]
  refuse r u hr hconstant := by
    unfold Run.assign
    rw [hr.declaration? hv]
    simp [hconstant]

/-- **Scopes that are made on the way lie on no chain that was there before.** -/
theorem Passage.row_lt_of_mem_chain (h : w.Passage es w') (hw : w.Formed)
    (hr : r.row < w.scopes.size) {e : Ref .scope × Scope} (he : e ∈ w'.scopeChain r) :
    e.1.row < w.scopes.size := by
  rw [scopeChain] at he
  generalize r.row + 1 = n at he
  induction n generalizing r with
  | zero => cases he
  | succ n ih =>
    obtain ⟨x, hx⟩ := Table.exists_of_lt_size hr
    -- the scope lies where it lay, so its parent is older
    obtain ⟨y, hy, hgrows⟩ := h.scope_kept hx
    rw [chainFrom, hy] at he
    rcases List.mem_cons.1 he with rfl | he
    · exact hr
    · have hparent : y.parent = x.parent := congrArg Prod.fst hgrows.place
      rw [hparent] at he
      cases hp : x.parent with
      | none =>
        rw [hp] at he
        cases he
      | some p =>
        rw [hp] at he
        exact ih (Nat.lt_trans (hw.parents r x p hx hp).1 hr) he

end World

/-! ### What is run on from a world -/

section

variable {ε α β : Type} {w w' : World}

/-- A run whose end is reached from a world, and then another. -/
theorem World.Passage.run_on {x : Run ε α} {f : α → Run ε β} (h : ∃ es, w'.Passage es (x w).2)
    (hf : ∀ a, (f a).Passes) : ∃ es, w'.Passage es ((x >>= f) w).2 := by
  obtain ⟨es, hes⟩ := h
  rw [Run.bind_apply]
  rcases hx : x w with ⟨a | e | _, w₁⟩
  · rw [hx] at hes
    obtain ⟨es', hes'⟩ := hf a w₁
    exact ⟨es ++ es', hes.trans hes'⟩
  · rw [hx] at hes
    exact ⟨es, hes⟩
  · rw [hx] at hes
    exact ⟨es, hes⟩

end

/-- Declarations that have ended are followed by the rest. -/
theorem Declarator.execAll_append {call : CallSemantics} {s : Ref .scope} {constant : Bool}
    {before : List Declarator} {w w' : World}
    (h : Declarator.execAll call s constant before w = (.done (), w')) (rest : List Declarator) :
    Declarator.execAll call s constant (before ++ rest) w =
      Declarator.execAll call s constant rest w' := by
  induction before generalizing w with
  | nil =>
    cases h
    rfl
  | cons d before ih =>
    obtain ⟨name, init⟩ := d
    rw [Declarator.execAll_cons] at h
    obtain ⟨v, w₁, hvalue, hnext⟩ := Run.exists_of_bind_done h
    obtain ⟨_, w₂, hdeclared, hnext⟩ := Run.exists_of_bind_done hnext
    rw [List.cons_append, Declarator.execAll_cons, Run.bind_of_done hvalue,
      Run.bind_of_done hdeclared]
    exact ih hnext

/-! ### Coming to a declaration -/

namespace Stmt

/-- An `if` runs one of its branches in its own scope. -/
theorem exec_ifElse (call : CallSemantics) (s : Ref .scope) (test : Expr) (consequent : Stmt)
    (alternate : Option Stmt) :
    (Stmt.ifElse test consequent alternate).exec call s = test.eval call s >>= fun v =>
      if v.isTruthy then consequent.exec call s
      else alternate.elim (pure .normal) (·.exec call s) := by
  cases alternate <;> rfl

/-- **The run of a statement comes to a declaration of a name.** Running the statement in the scope
`s` from the world `w` comes, inside `blocks` blocks, to declaring the name in the scope `t` as the
variable `x`, with which `w'` is reached. -/
inductive Declares (call : CallSemantics) (name : String) :
    Ref .scope → Stmt → World → Nat → Ref .scope → Variable → World → Prop
  | declare {s : Ref .scope} {kind : DeclarationKind} {before after : List Declarator}
      {init : Option Expr} {v : Value} {w w₁ w₂ : World}
      (hbefore : Declarator.execAll call s (kind = .const) before w = (.done (), w₁))
      (hvalue : Declarator.initial call s init w₁ = (.done v, w₂)) :
      Declares call name s (.declare kind (before ++ .mk name init :: after)) w 0 s
        ⟨v, kind = .const⟩ (w₂.setVariable s name ⟨v, kind = .const⟩)
  | consequent {s t : Ref .scope} {test : Expr} {stmt : Stmt} {alternate : Option Stmt}
      {blocks : Nat} {v : Value} {x : Variable} {w w₁ w' : World}
      (htest : test.eval call s w = (.done v, w₁)) (hv : v.isTruthy = true)
      (h : Declares call name s stmt w₁ blocks t x w') :
      Declares call name s (.ifElse test stmt alternate) w blocks t x w'
  | alternate {s t : Ref .scope} {test : Expr} {consequent stmt : Stmt} {blocks : Nat} {v : Value}
      {x : Variable} {w w₁ w' : World}
      (htest : test.eval call s w = (.done v, w₁)) (hv : v.isTruthy = false)
      (h : Declares call name s stmt w₁ blocks t x w') :
      Declares call name s (.ifElse test consequent (some stmt)) w blocks t x w'
  | block {s t : Ref .scope} {before rest : List Stmt} {stmt : Stmt} {blocks : Nat} {x : Variable}
      {w w₁ w₂ w' : World}
      (hhoist : hoist w.scopes.fresh (before ++ stmt :: rest)
        (w.addScope ⟨.empty, some s, none, none, w.heapOf s⟩) = (.done (), w₁))
      (hbefore : execAll call w.scopes.fresh before w₁ = (.done .normal, w₂))
      (h : Declares call name w.scopes.fresh stmt w₂ blocks t x w') :
      Declares call name s (.block (before ++ stmt :: rest)) w (blocks + 1) t x w'

namespace Declares

variable {n : Nat} {name : String} {s t : Ref .scope} {stmt : Stmt} {blocks : Nat} {x : Variable}
  {w w' : World}

/-- A run that has ended made a passage. -/
theorem passage_of_run {ε α : Type} {x : Run ε α} (hx : x.Passes) {o : Outcome ε α}
    (h : x w = (o, w')) : ∃ es, w.Passage es w' := by
  obtain ⟨es, hes⟩ := hx w
  rw [h] at hes
  exact ⟨es, hes⟩

theorem declarators_pass (n : Nat) (s : Ref .scope) (kind : DeclarationKind)
    (ds : List Declarator) :
    (Declarator.execAll (Machine.ofFuel n).call s (kind = .const) ds).Passes := by
  have hfree : Terms.all.Free ∨ Declarator.AllTidy kind ds := .inl Terms.free_all
  exact Run.Passes.conduct.declareAll (Machine.ofFuel_passes n).call s _ ds hfree

/-- The beginning of a declaration, up to the value of one of its declarators. -/
theorem passage_to_value {kind : DeclarationKind} {before : List Declarator} {init : Option Expr}
    {v : Value} {w₁ w₂ : World}
    (hbefore : Declarator.execAll (Machine.ofFuel n).call s (kind = .const) before w =
      (.done (), w₁))
    (hvalue : Declarator.initial (Machine.ofFuel n).call s init w₁ = (.done v, w₂)) :
    ∃ es, w.Passage es w₂ := by
  have hinitial : (Declarator.initial (Machine.ofFuel n).call s init).Passes := by
    cases init with
    | none => exact .pure
    | some e => exact e.eval_passes n s
  obtain ⟨es₁, h₁⟩ := passage_of_run (declarators_pass n s kind before) hbefore
  obtain ⟨es₂, h₂⟩ := passage_of_run hinitial hvalue
  exact ⟨es₁ ++ es₂, h₁.trans h₂⟩

/-- The beginning of a block, up to its own statements: it makes its scope and binds its
functions. -/
theorem passage_into_block {before rest : List Stmt} {w₁ w₂ : World}
    (hhoist : hoist w.scopes.fresh (before ++ stmt :: rest)
      (w.addScope ⟨.empty, some s, none, none, w.heapOf s⟩) = (.done (), w₁))
    (hbefore : execAll (Machine.ofFuel n).call w.scopes.fresh before w₁ = (.done .normal, w₂)) :
    (∃ es, w.Passage es w₂) ∧ w.scopes.fresh.row < w₂.scopes.size := by
  obtain ⟨es₁, h₁⟩ := passage_of_run (Run.Passes.conduct.hoist _ (.inl Terms.free_all)) hhoist
  obtain ⟨es₂, h₂⟩ := passage_of_run (execAll_passes n _ before) hbefore
  have hinto := h₁.trans h₂
  exact ⟨⟨_, (World.Passage.of_spares (.addScope w _)).trans hinto⟩,
    Nat.lt_of_lt_of_le (w.fresh_lt_addScope _) hinto.recent.1⟩

/-- **The declaration is executed on the way that the run of the statement takes,** which goes on
from there. -/
theorem on_way (h : stmt.Declares (Machine.ofFuel n).call name s w blocks t x w') :
    (∃ es, w.Passage es w') ∧ ∃ es, w'.Passage es (stmt.exec (Machine.ofFuel n).call s w).2 := by
  induction h with
  | @declare s kind before after init v w w₁ w₂ hbefore hvalue =>
    obtain ⟨es, hes⟩ := passage_to_value hbefore hvalue
    refine ⟨⟨_, hes.effect (.store s name _)⟩, ?_⟩
    -- the other declarators follow in the world in which this one was executed
    have hexec : Declarator.execAll (Machine.ofFuel n).call s (kind = .const)
        (before ++ .mk name init :: after) w =
          Declarator.execAll (Machine.ofFuel n).call s (kind = .const) after
            (w₂.setVariable s name ⟨v, kind = .const⟩) := by
      rw [Declarator.execAll_append hbefore, Declarator.execAll_cons, Run.bind_of_done hvalue]
      rfl
    refine World.Passage.run_on (x := Declarator.execAll _ s (kind = .const) _) ?_
      fun _ => .pure
    rw [hexec]
    exact declarators_pass n s kind after _
  | @consequent s t test stmt alternate blocks v x w w₁ w' htest hv _ ih =>
    obtain ⟨⟨es₂, h₂⟩, hrest⟩ := ih
    obtain ⟨es₁, h₁⟩ := passage_of_run (test.eval_passes n s) htest
    refine ⟨⟨_, h₁.trans h₂⟩, ?_⟩
    have hexec : (Stmt.ifElse test stmt alternate).exec (Machine.ofFuel n).call s w =
        stmt.exec (Machine.ofFuel n).call s w₁ := by
      rw [exec_ifElse, Run.bind_of_done htest, if_pos hv]
    rwa [hexec]
  | @alternate s t test consequent stmt blocks v x w w₁ w' htest hv _ ih =>
    obtain ⟨⟨es₂, h₂⟩, hrest⟩ := ih
    obtain ⟨es₁, h₁⟩ := passage_of_run (test.eval_passes n s) htest
    refine ⟨⟨_, h₁.trans h₂⟩, ?_⟩
    have hexec : (Stmt.ifElse test consequent (some stmt)).exec (Machine.ofFuel n).call s w =
        stmt.exec (Machine.ofFuel n).call s w₁ := by
      rw [exec_ifElse, Run.bind_of_done htest, if_neg (by simp [hv])]
      rfl
    rwa [hexec]
  | @block s t before rest stmt blocks x w w₁ w₂ w' hhoist hbefore _ ih =>
    obtain ⟨⟨es₂, h₂⟩, hrest⟩ := ih
    obtain ⟨⟨es₁, h₁⟩, -⟩ := passage_into_block hhoist hbefore
    refine ⟨⟨_, h₁.trans h₂⟩, ?_⟩
    have hexec : (Stmt.block (before ++ stmt :: rest)).exec (Machine.ofFuel n).call s w =
        execAll (Machine.ofFuel n).call w.scopes.fresh (stmt :: rest) w₂ :=
      (Run.bind_of_done hhoist).trans (execAll_append hbefore)
    rw [hexec]
    refine World.Passage.run_on hrest fun c => ?_
    cases c with
    | normal => exact execAll_passes n _ rest
    | returned v => exact .pure

/-- **Without a block the variable is one of the scope of the statement.** In blocks it is one of a
scope that is made for the innermost of them. -/
theorem landing (h : stmt.Declares (Machine.ofFuel n).call name s w blocks t x w')
    (hs : s.row < w.scopes.size) :
    (blocks = 0 → t = s) ∧ (0 < blocks → w.scopes.size ≤ t.row) ∧ w'.local? t name = some x := by
  induction h with
  | @declare s kind before after init v w w₁ w₂ hbefore hvalue =>
    obtain ⟨es, hes⟩ := passage_to_value hbefore hvalue
    exact ⟨fun _ => rfl, fun h => absurd h (Nat.lt_irrefl 0),
      World.local?_setVariable_self (Nat.lt_of_lt_of_le hs hes.recent.1)⟩
  | @consequent s t test stmt alternate blocks v x w w₁ w' htest hv _ ih =>
    obtain ⟨es, hes⟩ := passage_of_run (test.eval_passes n s) htest
    obtain ⟨hhere, hinside, hlocal⟩ := ih (Nat.lt_of_lt_of_le hs hes.recent.1)
    exact ⟨hhere, fun h => Nat.le_trans hes.recent.1 (hinside h), hlocal⟩
  | @alternate s t test consequent stmt blocks v x w w₁ w' htest hv _ ih =>
    obtain ⟨es, hes⟩ := passage_of_run (test.eval_passes n s) htest
    obtain ⟨hhere, hinside, hlocal⟩ := ih (Nat.lt_of_lt_of_le hs hes.recent.1)
    exact ⟨hhere, fun h => Nat.le_trans hes.recent.1 (hinside h), hlocal⟩
  | @block s t before rest stmt blocks x w w₁ w₂ w' hhoist hbefore _ ih =>
    obtain ⟨⟨es, hes⟩, hthere⟩ := passage_into_block hhoist hbefore
    obtain ⟨hhere, hinside, hlocal⟩ := ih hthere
    refine ⟨nofun, fun _ => ?_, hlocal⟩
    -- the scope of the innermost block is the new one itself or made after it
    cases blocks with
    | zero =>
      rw [hhere rfl]
      exact Nat.le_refl _
    | succ blocks => exact Nat.le_trans hes.recent.1 (hinside (Nat.succ_pos blocks))

/-- The run of a list that comes to the statement goes on from the declaration too. -/
theorem list_on_way (h : stmt.Declares (Machine.ofFuel n).call name s w blocks t x w')
    (rest : List Stmt) :
    (∃ es, w'.Passage es (execAll (Machine.ofFuel n).call s (stmt :: rest) w).2) ∧
      ∃ es, w'.Passage es (runAll (Machine.ofFuel n).call s (stmt :: rest) w).2 := by
  obtain ⟨-, hexec⟩ := h.on_way
  refine ⟨World.Passage.run_on hexec fun c => ?_, ?_⟩
  · cases c with
    | normal => exact execAll_passes n s rest
    | returned v => exact .pure
  · have hrest : (runAll (Machine.ofFuel n).call s rest).Passes :=
      Run.Passes.conduct.runStatements (Machine.ofFuel_passes n).call s rest (.inl Terms.free_all)
    -- what declares is no expression, whose value a program would yield
    cases h <;>
      refine World.Passage.run_on hexec fun c => ?_ <;>
      cases c with
      | normal => exact hrest
      | returned v => exact .pure

end Declares

/-- **A declared variable lasts.** The body of a function or a program runs in a scope of its own; let
its run come to a declaration of a name. The run goes on from there, and whatever is done from there
on, the name stays a variable of the scope in which it was declared, with the value it was given or
one that was stored since. In every scope that looks to this one, and so in all blocks and functions
inside that do not declare the name themselves, the name means this variable. If the declaration
stands in no block, but perhaps in branches, this scope is that of the body. If it stands in a block,
the name means this variable in no scope that was there before. -/
theorem declared_variable_lasts (n : Nat) {name : String} {s t : Ref .scope}
    {before rest : List Stmt} {stmt : Stmt} {blocks : Nat} {x : Variable} {w₀ w₁ w w' : World}
    (hs : s.row < w₀.scopes.size)
    (hhoist : hoist s (before ++ stmt :: rest) w₀ = (.done (), w₁))
    (hbefore : execAll (Machine.ofFuel n).call s before w₁ = (.done .normal, w))
    (h : stmt.Declares (Machine.ofFuel n).call name s w blocks t x w') :
    (∃ es, w'.Passage es (runBlock (Machine.ofFuel n).call s (before ++ stmt :: rest) w₀).2) ∧
    (∃ es, w'.Passage es (Program.run (Machine.ofFuel n).call ⟨before ++ stmt :: rest⟩ s w₀).2) ∧
    (∀ es w'', w'.Passage es w'' → ∃ x', (x' = x ∨ .store t name x' ∈ es) ∧ w''.Serves t name x' ∧
      w''.LooksTo t t name ∧
      ∀ r y, w''.LooksTo r t name → r.row < w''.scopes.size → y.parent = some r →
        y.locals.get? name = none → (w''.addScope y).LooksTo w''.scopes.fresh t name) ∧
    (blocks = 0 → t = s) ∧
    (0 < blocks → w.Formed → ∀ es w'' r y, w'.Passage es w'' → r.row < w.scopes.size →
      w''.declaration? r name ≠ some (t, y)) := by
  obtain ⟨es₁, h₁⟩ :=
    Declares.passage_of_run (Run.Passes.conduct.hoist s (.inl Terms.free_all)) hhoist
  obtain ⟨es₂, h₂⟩ := Declares.passage_of_run (execAll_passes n s before) hbefore
  obtain ⟨hhere, hinside, hlocal⟩ :=
    h.landing (Nat.lt_of_lt_of_le hs (h₁.trans h₂).recent.1)
  obtain ⟨hexec, hrun⟩ := h.list_on_way rest
  refine ⟨?_, ?_, fun es w'' hes => ?_, hhere, fun hblocks hw es w'' r y hes hr hd => ?_⟩
  · rwa [runBlock, Run.bind_of_done hhoist, execAll_append hbefore]
  · rw [Program.run, Run.bind_of_done hhoist, runAll_append hbefore (List.cons_ne_nil _ _)]
    exact hrun
  · obtain ⟨x', hx', hfrom⟩ := hes.local_kept hlocal
    obtain ⟨y, hy, -⟩ := Option.bind_eq_some_iff.1 hx'
    exact ⟨x', hfrom, World.serves_of_local? hx', .self hy name,
      fun r y hr hlt hp hnone => hr.inner hp hnone hlt⟩
  · -- a declaration that is found lies on the chain, and the scope is newer than all of it
    obtain ⟨⟨es', hes'⟩, -⟩ := h.on_way
    obtain ⟨e, he, hpair⟩ := List.exists_of_findSome?_eq_some hd
    obtain ⟨v, -, heq⟩ := Option.map_eq_some_iff.1 hpair
    have hlt := (hes'.trans hes).row_lt_of_mem_chain hw hr he
    rw [(Prod.mk.inj heq).1] at hlt
    exact absurd hlt (Nat.not_lt.2 (hinside hblocks))

/-- A program that declares a name in a branch goes on with the name. -/
theorem branch_variable_lasts :
    let w := World.empty.addHeap.addScope (.root {} ⟨0⟩)
    let stmt := Stmt.ifElse (.literal (.boolean true))
      (.declare .var [.mk "x" (some (.literal .null))]) none
    (0 < w.scopes.size ∧ hoist ⟨0⟩ [stmt] w = (.done (), w)) ∧
    Run.lookup ⟨0⟩ "x" (runBlock (Machine.ofFuel 0).call ⟨0⟩ [stmt] w).2 =
      (.done .null, (runBlock (Machine.ofFuel 0).call ⟨0⟩ [stmt] w).2) := by
  intro w stmt
  refine ⟨⟨by decide, rfl⟩, ?_⟩
  have htest : (Expr.literal (.boolean true)).eval (Machine.ofFuel 0).call ⟨0⟩ w =
      (.done (.boolean true), w) := rfl
  have hothers : Declarator.execAll (Machine.ofFuel 0).call ⟨0⟩ false [] w = (.done (), w) := rfl
  have hvalue : Declarator.initial (Machine.ofFuel 0).call ⟨0⟩ (some (.literal .null)) w =
      (.done .null, w) := rfl
  have hdeclare : (Stmt.declare .var ([] ++ .mk "x" (some (.literal .null)) :: [])).Declares
      (Machine.ofFuel 0).call "x" ⟨0⟩ w 0 ⟨0⟩ ⟨.null, false⟩
      (w.setVariable ⟨0⟩ "x" ⟨.null, false⟩) := .declare hothers hvalue
  have hdeclares : stmt.Declares (Machine.ofFuel 0).call "x" ⟨0⟩ w 0 ⟨0⟩ ⟨.null, false⟩ _ :=
    .consequent htest rfl hdeclare
  have hhoist : hoist ⟨0⟩ ([] ++ stmt :: []) w = (.done (), w) := rfl
  have hbefore : execAll (Machine.ofFuel 0).call ⟨0⟩ [] w = (.done .normal, w) := rfl
  obtain ⟨⟨es, hes⟩, -, hlasts, -, -⟩ :=
    declared_variable_lasts 0 (by decide) hhoist hbefore hdeclares
  obtain ⟨x', -, hserves, hself, -⟩ := hlasts es _ hes
  have hstored : (runBlock (Machine.ofFuel 0).call ⟨0⟩ [stmt] w).2.local? ⟨0⟩ "x" =
      some ⟨.null, false⟩ := rfl
  obtain rfl := Option.some.inj (hserves.declared.symm.trans hstored)
  exact hserves.lookup ⟨0⟩ hself

/-- **A variable that is declared in a block is gone behind it,** also one that `var` declares, and
also in a function: a reference fails there, and an assignment makes a variable of the root. -/
theorem block_variable_undefined :
    (Engine.compiling.evaluate (Machine.ofFuel 3).call "test.js"
      "if (true) \x7b var x = 'a'; \x7d x" {} .empty).1.error? = some (.reference "x is not defined") ∧
    (Engine.compiling.evaluate (Machine.ofFuel 3).call "test.js"
      "function f() \x7b \x7b var x = 'a'; \x7d x = 'b'; \x7d f(); x" {} .empty).1.error? = none :=
  ⟨by decide +kernel, by decide +kernel⟩

end Stmt

end ScriptModules
