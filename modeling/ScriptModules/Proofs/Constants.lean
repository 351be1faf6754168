import ScriptModules.Proofs.HeapLife
import ScriptModules.Proofs.Variables

/-!
# Constants

What is declared with `const` keeps its value for as long as nothing is declared again under its name
in the same scope, and its heap is not released. The steps that heed this are listed
(`World.Heeds`): among them is every assignment, from any scope, since an assignment that reaches a
constant fails. They all keep a constant (`World.Heeds.constant`), and everything that runs goes by
such steps (`Run.Heedful`), but for statements that declare the name in the scope itself.

A declaration that does is not refused. It takes the place of the constant, whatever word it begins
with (`Program.redeclares_constant`).
-/

namespace ScriptModules

open Run

/-! ### Steps that heed a constant -/

namespace World

/-- Scopes were made at most, and none that is older began to be tracked by a heap. -/
structure KeepsScopes (w w' : World) : Prop where
  scopes : ∀ t x, w.scopes.get? t = some x → w'.scopes.get? t = some x
  tracked : ∀ h, ∀ t ∈ w'.tracked h, t ∈ w.tracked h ∨ w.scopes.size ≤ t.row

/-- **A step that heeds what is declared under a name in a scope.** -/
inductive Heeds (s : Ref .scope) (name : String) : World → World → Prop
  | aside {w w' : World} : w.KeepsScopes w' → Heeds s name w w'
  | declare {w : World} (t : Ref .scope) (other : String) (x : Variable) :
      (t = s → other ≠ name) → Heeds s name w (w.setVariable t other x)
  | assign {w w' : World} (t : Ref .scope) (other : String) (v : Value) :
      Run.assign t other v w = (.done (), w') → Heeds s name w w'
  | release {w : World} (h : Ref .heap) : s ∉ w.tracked h → Heeds s name w (w.release h)

/-- From one world to another by steps that heed what is declared under the name in the scope. -/
def Meanwhile (w : World) (s : Ref .scope) (name : String) (w' : World) : Prop :=
  Relation.ReflTransGen (Heeds s name) w w'

variable {s t : Ref .scope} {name : String} {v : Value} {w w' w₁ : World}

theorem KeepsScopes.of_spares (h : w.Spares w') : w.KeepsScopes w' := ⟨h.scopes, h.tracked⟩

theorem KeepsScopes.of_same (hs : w'.scopes = w.scopes) (hh : w'.heaps = w.heaps) :
    w.KeepsScopes w' where
  scopes t x ht := by rwa [hs]
  tracked h t ht := .inl (by rwa [World.tracked, hh] at ht)

theorem exists_get?_of_local? {x : Variable} (h : w.local? s name = some x) :
    ∃ y, w.scopes.get? s = some y ∧ y.locals.get? name = some x :=
  Option.bind_eq_some_iff.1 h

theorem lt_size_of_local? {x : Variable} (h : w.local? s name = some x) : s.row < w.scopes.size :=
  have ⟨_, hy, _⟩ := exists_get?_of_local? h
  lt_size_of_get? hy

/-- A scope that holds a variable is not one that is made next. -/
theorem fresh_ne_of_local? {x : Variable} (h : w.local? s name = some x) : w.scopes.fresh ≠ s :=
  fun heq => Nat.lt_irrefl _ (heq ▸ lt_size_of_local? h : w.scopes.fresh.row < w.scopes.size)

/-- An assignment reaches no constant. -/
theorem home_ne_of_assign_done {other : String} {u : Value}
    (h : Run.assign t other u w = (.done (), w')) (hconstant : w.local? s name = some ⟨v, true⟩) :
    w' = w.setVariable (w.home t other) other ⟨u, false⟩ ∧ (w.home t other = s → other ≠ name) := by
  rcases Run.assign_eq t other u w with ⟨hrun, hvariable⟩ | ⟨_, _, _, _, hfails⟩
  · refine ⟨(Prod.mk.inj (h.symm.trans hrun)).2, fun hhome hname => ?_⟩
    subst hname
    cases hd : w.declaration? t other with
    | some d =>
      obtain ⟨r, x⟩ := d
      have hlocal := local?_of_declaration? hd
      rw [← home_of_declaration? hd, hhome, hconstant] at hlocal
      obtain rfl := Option.some.inj hlocal
      cases hvariable _ _ hd
    | none =>
      -- the name would be no variable of the root
      have hnone := local?_rootOf_eq_none hd
      rw [← home_of_declaration?_eq_none hd, hhome, hconstant] at hnone
      cases hnone
  · cases h.symm.trans hfails

/-- **A step keeps a constant that it heeds.** -/
theorem Heeds.constant (h : Heeds s name w w') (hconstant : w.local? s name = some ⟨v, true⟩) :
    w'.local? s name = some ⟨v, true⟩ := by
  cases h with
  | aside hkeeps =>
    obtain ⟨y, hy, hlocal⟩ := exists_get?_of_local? hconstant
    rw [local?, hkeeps.scopes s y hy]
    exact hlocal
  | declare t other x hne =>
    rw [local?_setVariable_of_ne hne]
    exact hconstant
  | assign t other u hrun =>
    obtain ⟨rfl, hne⟩ := home_ne_of_assign_done hrun hconstant
    rw [local?_setVariable_of_ne hne]
    exact hconstant
  | release h hnot =>
    have hsame : (w.release h).scopes.get? s = w.scopes.get? s := by
      change ((w.tracked h).foldl emptyScope w).scopes.get? s = _
      rw [get?_emptyScopes, if_neg hnot]
    rw [local?, hsame]
    exact hconstant

/-- No heap begins to track the scope. -/
theorem Heeds.untracked (h : Heeds s name w w') (hs : s.row < w.scopes.size) {r : Ref .heap}
    (hnot : s ∉ w.tracked r) : s ∉ w'.tracked r := by
  intro hmem
  cases h with
  | aside hkeeps => exact (hkeeps.tracked r s hmem).elim hnot (Nat.not_le.2 hs)
  | declare t other x _ => exact hnot hmem
  | assign t other u hrun =>
    rcases Run.assign_eq t other u w with ⟨heq, -⟩ | ⟨_, _, _, _, hfails⟩
    · obtain ⟨-, rfl⟩ := Prod.mk.inj (hrun.symm.trans heq)
      exact hnot hmem
    · cases hrun.symm.trans hfails
  | release h _ =>
    by_cases hrh : h = r
    · rw [hrh, (w.released r).1] at hmem
      cases hmem
    · rw [w.tracked_release hrh] at hmem
      exact hnot hmem

namespace Meanwhile

theorem refl (w : World) : w.Meanwhile s name w := Relation.ReflTransGen.refl

theorem step (h : w.Meanwhile s name w₁) (h' : Heeds s name w₁ w') : w.Meanwhile s name w' := h.tail h'

theorem trans (h : w.Meanwhile s name w₁) (h' : w₁.Meanwhile s name w') : w.Meanwhile s name w' :=
  Relation.ReflTransGen.trans h h'

/-- **Meanwhile the constant is kept.** -/
theorem constant (h : w.Meanwhile s name w') (hconstant : w.local? s name = some ⟨v, true⟩) :
    w'.local? s name = some ⟨v, true⟩ := by
  induction h with
  | refl => exact hconstant
  | tail _ hstep ih => exact hstep.constant ih

theorem untracked (h : w.Meanwhile s name w') (hconstant : w.local? s name = some ⟨v, true⟩)
    {r : Ref .heap} (hnot : s ∉ w.tracked r) : s ∉ w'.tracked r := by
  induction h with
  | refl => exact hnot
  | @tail w₁ w' hbefore hstep ih =>
    have hbefore : w.Meanwhile s name w₁ := hbefore
    exact hstep.untracked (lt_size_of_local? (hbefore.constant hconstant)) ih

end Meanwhile

end World

/-! ### Runs that heed a constant -/

/-- **A run heeds what is declared under a name in a scope:** where a constant is, it ends in a world
that comes by steps that heed it. -/
def Run.Heedful {ε α : Type} (s : Ref .scope) (name : String) (x : Run ε α) : Prop :=
  ∀ v w, w.local? s name = some ⟨v, true⟩ →
    Leads (· = w) x (fun _ w' => w.Meanwhile s name w') fun _ => True

/-- The worlds in which the scope has the name as a constant. -/
abbrev World.Holding (s : Ref .scope) (name : String) : Type :=
  { w : World // ∃ v, w.local? s name = some ⟨v, true⟩ }

section

variable {s : Ref .scope} {name : String} {ε α β : Type}

/-- It is enough that the run keeps to what comes by such steps from any world. -/
theorem Run.Heedful.of_keeps {x : Run ε α} (h : ∀ i : World.Holding s name,
    Keeps (i.1.Meanwhile s name) (fun _ => True) x) : x.Heedful s name :=
  fun v w hw => (h ⟨w, v, hw⟩).strengthen fun _ heq => heq ▸ .refl w

theorem Run.Heedful.keeps {x : Run ε α} (h : x.Heedful s name) (i : World.Holding s name) :
    Keeps (i.1.Meanwhile s name) (fun _ => True) x := by
  intro w hw
  obtain ⟨v, hconstant⟩ := i.2
  have hafter := h v w (hw.constant hconstant) w rfl
  rcases hx : x w with ⟨a | e | _, w'⟩ <;> rw [hx] at hafter
  · exact hw.trans hafter
  · exact hw.trans hafter
  · trivial

namespace Run.Heedful

theorem pure {a : α} : (pure a : Run ε α).Heedful s name := .of_keeps fun _ => Keeps.pure

theorem fail {e : ε} : (Run.fail e : Run ε α).Heedful s name := .of_keeps fun _ => Keeps.fail

theorem bind {x : Run ε α} {f : α → Run ε β} (hx : x.Heedful s name)
    (hf : ∀ a, (f a).Heedful s name) : (x >>= f).Heedful s name :=
  .of_keeps fun i => (hx.keeps i).bind fun a => (hf a).keeps i

end Run.Heedful

/-- A constant is there behind such a run as it was before. -/
theorem Run.Heedful.constant {x : Run ε α} (h : x.Heedful s name) {v : Value} {w w' : World}
    {r : Except ε α} (hw : w.local? s name = some ⟨v, true⟩) (hx : x w = Run.ofExcept r w') :
    w.Meanwhile s name w' ∧ w'.local? s name = some ⟨v, true⟩ :=
  have hafter : w.Meanwhile s name w' := (h v w hw).of_eq rfl hx
  ⟨hafter, hafter.constant hw⟩

end

section

variable {s : Ref .scope} {name : String} (i : World.Holding s name)

/-- What is known of a world that comes from one with the constant. -/
theorem World.Holding.constant {w : World} (hw : i.1.Meanwhile s name w) :
    ∃ v, w.local? s name = some ⟨v, true⟩ :=
  i.2.imp fun _ => hw.constant

theorem World.Holding.assign (t : Ref .scope) (other : String) (u : Value) :
    Keeps (i.1.Meanwhile s name) (fun _ => True) (Run.assign t other u) := by
  intro w hw
  rcases Run.assign_eq t other u w with ⟨hrun, -⟩ | ⟨_, _, _, _, hfails⟩
  · rw [hrun]
    exact hw.step (.assign t other u hrun)
  · rw [hfails]
    exact hw

theorem World.Holding.declare (t : Ref .scope) (other : String) (u : Value) (constant : Bool)
    (hne : t = s → other ≠ name) : Keeps (i.1.Meanwhile s name) (fun _ => True)
      (Run.declare t other u constant : Script Unit) :=
  Leads.change fun _ hw => hw.step (.declare t other ⟨u, constant⟩ hne)

/-- A scope that is made is not the one that holds the constant. -/
theorem World.Holding.fresh_ne {w : World} (hw : i.1.Meanwhile s name w) : w.scopes.fresh ≠ s :=
  have ⟨_, hv⟩ := i.constant hw
  World.fresh_ne_of_local? hv

theorem World.Holding.addScope {w : World} (x : Scope) (hw : i.1.Meanwhile s name w) :
    i.1.Meanwhile s name (w.addScope x) :=
  hw.step (.aside (.of_spares (.addScope w x)))

theorem World.Holding.inner {α : Type} (t : Ref .scope) (this : Option Value)
    {f : Ref .scope → Script α}
    (hf : ∀ t, t ≠ s → Keeps (i.1.Meanwhile s name) (fun _ => True) (f t)) :
    Keeps (i.1.Meanwhile s name) (fun _ => True) (Run.newInnerScope t this >>= f) := by
  intro w hw
  rw [Run.newInnerScope_bind]
  exact hf w.scopes.fresh (i.fresh_ne hw) _ (i.addScope _ hw)

/-- **Expressions heed a constant,** in whatever scope they are evaluated. -/
theorem World.Holding.lasting : Lasting fun _ => i.1.Meanwhile s name where
  inert hi hw := hw.step (.aside (.of_same hi.scopes hi.heaps))
  closure _ hw := hw.step (.aside (.of_same rfl rfl))
  assign t other u := i.assign t other u

/-- **Evaluation heeds a constant of another scope.** -/
theorem World.Holding.simulation :
    Simulation Eq (Beside fun t w => t ≠ s ∧ i.1.Meanwhile s name w) :=
  have elsewhere : ∀ {t : Ref .scope} {x : Script Unit},
      (t ≠ s → Keeps (i.1.Meanwhile s name) (fun _ => True) x) →
      Keeps (fun w => t ≠ s ∧ i.1.Meanwhile s name w) (fun _ => True) x := fun hx =>
    Leads.of_fact fun ht => (hx ht).weaken fun _ _ hw => ⟨ht, hw⟩
  have lasts : Lasting fun t w => t ≠ s ∧ i.1.Meanwhile s name w :=
    { inert := fun hi hw => ⟨hw.1, i.lasting.inert (s := s) hi hw.2⟩
      closure := fun c hw => ⟨hw.1, i.lasting.closure c hw.2⟩
      assign := fun t other u => elsewhere fun _ => i.assign t other u }
  { lasts.exprSimulation with
    declare := fun {t _ v _} x c hv => hv ▸ Beside.twins (x := fun t => Run.declare t x v c)
      (elsewhere fun ht => i.declare t x v c fun heq => absurd heq ht)
    inner := Beside.inner (fun _ _ hw => ⟨hw.1, rfl, hw.2.1, i.fresh_ne hw.2.2.2, i.addScope _ hw.2.2.2⟩)
      fun _ _ hw hp => ⟨hw.1, rfl, hw.2.2.1, hp.2⟩ }

end

/-! ### Everything that runs -/

/-- The value that a declarator gives to its name. -/
def Declarator.initial (call : CallSemantics) (s : Ref .scope) (init : Option Expr) : Script Value :=
  init.elim (pure .undefined) (·.eval call s)

theorem Declarator.execAll_cons (call : CallSemantics) (s : Ref .scope) (constant : Bool)
    (name : String) (init : Option Expr) (rest : List Declarator) :
    Declarator.execAll call s constant (.mk name init :: rest) =
      Declarator.initial call s init >>= fun v => Run.declare s name v constant >>= fun _ =>
        Declarator.execAll call s constant rest := by
  cases init <;> rfl

/-- The names that a statement declares in its own scope when it is executed. -/
def Stmt.declares : Stmt → List String
  | .declare _ declarators => declarators.map fun | .mk name _ => name
  | .ifElse _ consequent none => consequent.declares
  | .ifElse _ consequent (some alternate) => consequent.declares ++ alternate.declares
  | _ => []

section

variable {s : Ref .scope} {name : String} {call : CallSemantics}
  (hc : ∀ f this arguments, (call f this arguments).Heedful s name)

include hc

theorem Expr.eval_heeds (t : Ref .scope) (e : Expr) : (e.eval call t).Heedful s name :=
  .of_keeps fun i => Beside.keeps (Expr.eval_twin i.lasting.exprSimulation
    (CallsAlike.beside fun _ f this arguments => (hc f this arguments).keeps i) t t e)

theorem World.Holding.calls (i : World.Holding s name) :
    CallsAlike Eq (Beside fun t w => t ≠ s ∧ i.1.Meanwhile s name w) call call :=
  CallsAlike.beside fun _ f this arguments => Leads.of_fact fun ht =>
    ((hc f this arguments).keeps i).weaken fun _ _ hw => ⟨ht, hw⟩

/-- In another scope everything heeds the constant. -/
theorem heeds_elsewhere {α : Type} {A : α → α → Prop} {t : Ref .scope} {x : Script α} (ht : t ≠ s)
    (hx : ∀ {J}, Simulation Eq (Beside J) → CallsAlike Eq (Beside J) call call →
      Twins (Beside J t t) A x x) : x.Heedful s name :=
  .of_keeps fun i => (Beside.keeps (hx i.simulation (i.calls hc))).consequence
    (fun _ hw => ⟨ht, hw⟩) (fun _ _ hw => hw.2) fun _ => id

theorem runBlock_heeds {t : Ref .scope} (ht : t ≠ s) (statements : List Stmt) :
    (runBlock call t statements).Heedful s name :=
  heeds_elsewhere hc ht fun L hc =>
    (L.hoist statements).bind_eq fun _ => Stmt.execAll_twin L hc t t statements

theorem Declarator.execAll_heeds (t : Ref .scope) (kind : DeclarationKind) (constant : Bool)
    (ds : List Declarator) (hne : t = s → name ∉ (Stmt.declare kind ds).declares) :
    (Declarator.execAll call t constant ds).Heedful s name := by
  induction ds with
  | nil => exact .pure
  | cons d rest ih =>
    obtain ⟨other, init⟩ := d
    have hother : t = s → other ≠ name := fun ht heq => hne ht (heq ▸ List.mem_cons_self)
    have hrest := ih fun ht hmem => hne ht (List.mem_cons_of_mem _ hmem)
    have hinitial : (Declarator.initial call t init).Heedful s name := by
      cases init with
      | some e => exact Expr.eval_heeds hc t e
      | none => exact .pure
    rw [Declarator.execAll_cons]
    exact hinitial.bind fun v =>
      (Run.Heedful.of_keeps fun i => i.declare t other v constant hother).bind fun _ => hrest

/-- **Statements heed a constant,** but for those that declare its name in its scope. -/
theorem Stmt.exec_heeds (t : Ref .scope) : ∀ stmt : Stmt, (t = s → name ∉ stmt.declares) →
    (stmt.exec call t).Heedful s name
  | .empty, _ => .pure
  | .expression e, _ => (Expr.eval_heeds hc t e).bind fun _ => .pure
  | .declare kind ds, hne => (Declarator.execAll_heeds hc t kind _ ds hne).bind fun _ => .pure
  | .function .., _ => .pure
  | .ret none, _ => .pure
  | .ret (some e), _ => (Expr.eval_heeds hc t e).bind fun _ => .pure
  | .ifElse test consequent none, hne => (Expr.eval_heeds hc t test).bind fun v => by
    split
    · exact Stmt.exec_heeds t consequent hne
    · exact .pure
  | .ifElse test consequent (some alternate), hne => (Expr.eval_heeds hc t test).bind fun v => by
    split
    · exact Stmt.exec_heeds t consequent fun ht hmem => hne ht (List.mem_append_left _ hmem)
    · exact Stmt.exec_heeds t alternate fun ht hmem => hne ht (List.mem_append_right _ hmem)
  | .throw e, _ => (Expr.eval_heeds hc t e).bind fun v =>
    (Run.Heedful.of_keeps fun i => i.lasting.quiet (Run.textOf_quiet v) t).bind fun _ => .fail
  | .block statements, _ => .of_keeps fun i =>
    i.inner t none fun t' ht' => (runBlock_heeds hc ht' statements).keeps i

theorem Stmt.execAll_heeds (t : Ref .scope) (statements : List Stmt)
    (hne : t = s → ∀ stmt ∈ statements, name ∉ stmt.declares) :
    (Stmt.execAll call t statements).Heedful s name := by
  induction statements with
  | nil => exact .pure
  | cons stmt rest ih =>
    refine (Stmt.exec_heeds hc t stmt fun ht => hne ht stmt List.mem_cons_self).bind fun c => ?_
    cases c with
    | returned v => exact .pure
    | normal => exact ih fun ht other hmem => hne ht other (List.mem_cons_of_mem _ hmem)

theorem Stmt.runAll_heeds (t : Ref .scope) (statements : List Stmt)
    (hne : t = s → ∀ stmt ∈ statements, name ∉ stmt.declares) :
    (Stmt.runAll call t statements).Heedful s name := by
  fun_induction Stmt.runAll call t statements with
  | case1 => exact .pure
  | case2 e => exact (Expr.eval_heeds hc t e).bind fun _ => .pure
  | case3 stmt rest _ ih =>
    refine (Stmt.exec_heeds hc t stmt fun ht => hne ht stmt List.mem_cons_self).bind fun c => ?_
    cases c with
    | returned v => exact .pure
    | normal => exact ih fun ht other hmem => hne ht other (List.mem_cons_of_mem _ hmem)

theorem Closure.invoke_heeds (c : Closure) (this : Value) (arguments : Array Value) :
    (c.invoke call this arguments).Heedful s name := by
  refine .of_keeps fun i => ?_
  have hrun : Keeps (i.1.Meanwhile s name) (fun _ => True) (c.run call this arguments) := by
    have htwins : Twins (fun w w' => w = w' ∧ i.1.Meanwhile s name w) Eq
        (c.run call this arguments) (c.run call this arguments) :=
      Closure.run_twin i.simulation (i.calls hc) c c.scope (List.forall₂_same.mpr fun _ _ => rfl)
        (Beside.inner (fun _ _ hw => ⟨rfl, rfl, hw.1, i.fresh_ne hw.2, i.addScope _ hw.2⟩)
          fun _ _ _ hw => ⟨rfl, hw.2⟩)
    exact htwins.leads (fun w hw => ⟨w, rfl, hw⟩) fun _ _ hw => hw.2
  have depth : ∀ {w : World} (r : Ref .heap) (d : Nat), i.1.Meanwhile s name w →
      i.1.Meanwhile s name (w.setDepth r d) :=
    fun r d hw => hw.step (.aside (.of_spares (.setDepth _ r d)))
  refine Keeps.bind Keeps.read fun r => Keeps.bind ?_ fun _ => hrun.andAlways fun w => depth r _
  intro w hw
  unfold Run.enterCall
  by_cases hd : callLimit ≤ w.depth r
  · rw [if_pos hd]
    exact hw
  · rw [if_neg hd]
    exact depth r _ hw

theorem Program.evaluate_heeds (p : Program) (b : Bindings) :
    (p.evaluate call b).Heedful s name := by
  refine .of_keeps fun i => ?_
  have hrun : ∀ {t : Ref .scope}, t ≠ s → (p.run call t).Heedful s name := fun ht =>
    heeds_elsewhere hc ht fun L hc => Program.run_twin L hc p _ _
  unfold Program.evaluate
  split
  · exact fun w hw => (hrun (i.fresh_ne hw)).keeps i _ (i.addScope _ hw)
  · intro w hw
    have hheap := hw.step (.aside (.of_spares (.addHeap w)))
    have hroot := i.addScope (.root b w.heaps.fresh) hheap
    obtain ⟨v, hv⟩ := i.constant hroot
    -- the heap that is made for the program does not track the scope, and does not begin to
    have hnot : s ∉ (w.addHeap.addScope (.root b w.heaps.fresh)).tracked w.heaps.fresh := by
      intro hmem
      have hkeeps := World.Spares.addScope w.addHeap (.root b w.heaps.fresh)
      rcases hkeeps.tracked _ _ hmem with hold | hnew
      · rw [World.tracked, w.heap_addHeap, Table.get?_fresh] at hold
        cases hold
      · obtain ⟨v', hv'⟩ := i.constant hheap
        exact absurd (World.lt_size_of_local? hv') (Nat.not_lt.2 hnew)
    exact Leads.andAlways (S := fun _ => i.1.Meanwhile s name) (hrun (i.fresh_ne hheap) v _ hv)
      (fun _ w' hw' => (hroot.trans hw').step (.release _ (hw'.untracked hv hnot))) _ rfl

end

/-- **Machines heed a constant** in all that they do. -/
theorem heeds_lawful (s : Ref .scope) (name : String) :
    Lawful (.plain (fun i : World.Holding s name => i.1.Meanwhile s name) (fun _ => True)
      fun _ => True) :=
  lawful_of_inert (fun _ => trivial) (fun hi hw => hw.step (.aside (.of_same hi.scopes hi.heaps)))
    { closure := fun hc i _ _ c this arguments =>
        ((Closure.invoke_heeds (fun f this arguments => .of_keeps fun i => hc i [] f this arguments)
          c this arguments).keeps i).strengthen fun _ => And.left
      evaluate := fun hc i _ p b =>
        (Program.evaluate_heeds (fun f this arguments => .of_keeps fun i =>
          hc i [] f this arguments) p b).keeps i }

theorem Machine.call_heeds (n : Nat) (s : Ref .scope) (name : String) (f : Ref .function)
    (this : Value) (arguments : Array Value) :
    ((ofFuel n).call f this arguments).Heedful s name :=
  .of_keeps fun i => (ofFuel_keeps (heeds_lawful s name) n).call i [] f this arguments

/-! ### Declaring and using a constant -/

section

variable {s : Ref .scope} {name : String} {v : Value} {w w' : World}

/-- Declarations that end are those before one and those behind it. -/
theorem Declarator.exists_of_execAll_append {call : CallSemantics} {constant : Bool}
    {before rest : List Declarator}
    (h : Declarator.execAll call s constant (before ++ rest) w = (.done (), w')) :
    ∃ w₁, Declarator.execAll call s constant before w = (.done (), w₁) ∧
      Declarator.execAll call s constant rest w₁ = (.done (), w') := by
  induction before generalizing w with
  | nil => exact ⟨w, rfl, h⟩
  | cons d before ih =>
    obtain ⟨name, init⟩ := d
    rw [List.cons_append, Declarator.execAll_cons] at h
    obtain ⟨v, w₁, hvalue, hnext⟩ := Run.exists_of_bind_done h
    obtain ⟨_, w₂, hdeclared, hnext⟩ := Run.exists_of_bind_done hnext
    obtain ⟨w₃, hbefore, hrest⟩ := ih hnext
    refine ⟨w₃, ?_, hrest⟩
    rw [Declarator.execAll_cons]
    exact (Run.bind_of_done hvalue).trans ((Run.bind_of_done hdeclared).trans hbefore)

/-- **A declaration that was executed has made its constants,** with the values that they were given:
the name means the last of its declarators. -/
theorem Stmt.exec_const (n : Nat) {before after : List Declarator} {init : Option Expr}
    (hs : s.row < w.scopes.size) (hafter : name ∉ (Stmt.declare .const after).declares)
    (h : (Stmt.declare .const (before ++ .mk name init :: after)).exec (Machine.ofFuel n).call s w =
      (.done .normal, w')) :
    ∃ w₁ v w₂, Declarator.execAll (Machine.ofFuel n).call s true before w = (.done (), w₁) ∧
      Declarator.initial (Machine.ofFuel n).call s init w₁ = (.done v, w₂) ∧
      w'.local? s name = some ⟨v, true⟩ := by
  obtain ⟨_, w₄, hall, hend⟩ := Run.exists_of_bind_done h
  obtain rfl : w₄ = w' := (Prod.mk.inj hend).2
  obtain ⟨w₁, hbefore, hrest⟩ := Declarator.exists_of_execAll_append hall
  rw [Declarator.execAll_cons] at hrest
  obtain ⟨v, w₂, hvalue, hnext⟩ := Run.exists_of_bind_done hrest
  obtain ⟨_, w₃, hdeclared, hbehind⟩ := Run.exists_of_bind_done hnext
  obtain rfl : w₂.setVariable s name ⟨v, true⟩ = w₃ := (Prod.mk.inj hdeclared).2
  refine ⟨w₁, v, w₂, hbefore, hvalue, ?_⟩
  -- the scope is still there when the constant is made, and the declarators behind it heed it
  have hgrows : w.scopes.size ≤ w₂.scopes.size := by
    obtain ⟨es, hpassage⟩ := Stmt.exec_passes n s (.declare .const before) w
    have hexec : (Stmt.declare .const before).exec (Machine.ofFuel n).call s w =
        (.done .normal, w₁) := Run.bind_of_done hbefore
    rw [hexec] at hpassage
    refine Nat.le_trans hpassage.recent.1 ?_
    cases init with
    | none =>
      obtain rfl : w₁ = w₂ := (Prod.mk.inj hvalue).2
      exact Nat.le_refl _
    | some e =>
      obtain ⟨es', hpassage'⟩ := Expr.eval_passes n s e w₁
      have heval : e.eval (Machine.ofFuel n).call s w₁ = (.done v, w₂) := hvalue
      rw [heval] at hpassage'
      exact hpassage'.recent.1
  have hmade : (w₂.setVariable s name ⟨v, true⟩).local? s name = some ⟨v, true⟩ :=
    World.local?_setVariable_self (Nat.lt_of_lt_of_le hs hgrows)
  exact ((Declarator.execAll_heeds (Machine.call_heeds n s name) s .const true after
    fun _ => hafter).constant (r := .ok ()) hmade hbehind).2

/-- **No assignment gets past a constant.** One that has a value had another variable before it when
its right side was evaluated. -/
theorem Expr.eval_assign_constant {call : CallSemantics}
    (hc : ∀ f this arguments, (call f this arguments).Heedful s name)
    (hw : w.local? s name = some ⟨v, true⟩) {t : Ref .scope} {op : AssignOp} {e : Expr} {x : Value}
    (h : (Expr.assign op (.name name) e).eval call t w = (.done x, w')) :
    ∃ r w₁, e.eval call t w = (.done r, w₁) ∧ ∀ u, w₁.declaration? t name ≠ some (s, u) := by
  obtain ⟨r, w₁, heval, hnext⟩ := Run.exists_of_bind_done h
  refine ⟨r, w₁, heval, fun u hd => ?_⟩
  obtain ⟨y, w₂, hcombine, hnext⟩ := Run.exists_of_bind_done hnext
  obtain ⟨_, w₃, hassign, -⟩ := Run.exists_of_bind_done hnext
  -- reading the constant and computing with it leaves the scopes as they are
  have hquiet : World.Quiet w₁ w₂ :=
    (op.combine_within r (Run.lookup_quiet t name)).of_eq (r := .ok y) hcombine
  have hsame := World.declaration?_of_scopes_eq hquiet.scopes t name
  rcases Run.assign_eq t name y w₂ with ⟨-, hvariable⟩ | ⟨_, _, _, _, hfails⟩
  · have hconstant := ((Expr.eval_heeds hc t e).constant (r := .ok r) hw heval).2
    obtain rfl := Option.some.inj ((World.local?_of_declaration? hd).symm.trans hconstant)
    cases hvariable _ _ (hsame.trans hd)
  · cases hassign.symm.trans hfails

end

/-- **Constants stay what they are.** A `const` declaration that was executed has made each of its names
a constant of its scope, with the value that the last declarator of the name was given. Then nothing
that runs changes it, but a statement that declares the name in the same scope: expressions and
statements in this and in other scopes, calls of whatever function, programs, listeners and tasks all
go by steps that heed it. And wherever such steps lead, the name has the declared value from every
scope from which its nearest declaration is the constant; an assignment to it from there fails and
changes nothing, and so no assignment or compound assignment comes to a value that finds the constant
when its right side has been evaluated. A step that heeds the constant releases no heap that tracks
the scope. -/
theorem World.constant_kept (n : Nat) (s : Ref .scope) (name : String) :
    let m := Machine.ofFuel n
    (∀ before init after w w', s.row < w.scopes.size →
      name ∉ (Stmt.declare .const after).declares →
      (Stmt.declare .const (before ++ .mk name init :: after)).exec m.call s w =
        (.done .normal, w') →
      ∃ w₁ v w₂, Declarator.execAll m.call s true before w = (.done (), w₁) ∧
        Declarator.initial m.call s init w₁ = (.done v, w₂) ∧
        w'.local? s name = some ⟨v, true⟩) ∧
    (∀ t,
      (∀ e : Expr, (e.eval m.call t).Heedful s name) ∧
      (∀ stmt : Stmt, (t = s → name ∉ stmt.declares) → (stmt.exec m.call t).Heedful s name) ∧
      (∀ statements : List Stmt, (t = s → ∀ stmt ∈ statements, name ∉ stmt.declares) →
        (Stmt.execAll m.call t statements).Heedful s name ∧
        (Stmt.runAll m.call t statements).Heedful s name)) ∧
    (∀ f this arguments, (m.call f this arguments).Heedful s name) ∧
    (∀ p b, (Program.evaluate m.call p b).Heedful s name) ∧
    (∀ l v, (m.notify l v).Heedful s name) ∧
    (∀ c, (m.drain c).Heedful s name) ∧
    ∀ v (w w' : World), w.local? s name = some ⟨v, true⟩ → w.Meanwhile s name w' →
      w'.local? s name = some ⟨v, true⟩ ∧
      ∀ t,
        (∀ u, w'.declaration? t name = some (s, u) →
          Run.lookup t name w' = (.done v, w') ∧
          ∀ x, Run.assign t name x w' =
            (.failed (.wrongType "Assignment to constant variable"), w')) ∧
        ∀ op e x w'', (Expr.assign op (.name name) e).eval m.call t w' = (.done x, w'') →
          ∃ r w₁, e.eval m.call t w' = (.done r, w₁) ∧ ∀ u, w₁.declaration? t name ≠ some (s, u) := by
  have hcall := Machine.call_heeds n s name
  have hmachine := Machine.ofFuel_keeps (heeds_lawful s name) n
  refine ⟨fun _ _ _ _ _ => Stmt.exec_const n,
    fun t => ⟨Expr.eval_heeds hcall t, Stmt.exec_heeds hcall t, fun statements hne =>
      ⟨Stmt.execAll_heeds hcall t statements hne, Stmt.runAll_heeds hcall t statements hne⟩⟩,
    hcall, Program.evaluate_heeds hcall,
    fun l v => .of_keeps fun i => hmachine.notify_plain i l v,
    fun c => .of_keeps fun i => hmachine.drain i [] c trivial, fun v w w' hw hmeanwhile => ?_⟩
  have hconstant := hmeanwhile.constant hw
  refine ⟨hconstant, fun t => ⟨fun u hd => ?_, fun op e x w'' =>
    Expr.eval_assign_constant hcall hconstant⟩⟩
  obtain rfl := Option.some.inj ((local?_of_declaration? hd).symm.trans hconstant)
  refine ⟨lookup_of_declaration? hd, fun x => ?_⟩
  rcases Run.assign_eq t name x w' with ⟨-, hvariable⟩ | ⟨_, _, _, _, hfails⟩
  · cases hvariable _ _ hd
  · exact hfails

/-- **A constant that is declared again is not one any more.** The second declaration is executed like
the first, and the name has its value. -/
theorem Program.redeclares_constant :
    (Engine.compiling.evaluate (Machine.ofFuel 1).call "test.js"
      "const c = 'a'; var c = 'b'; c" {} .empty).1.value?.bind Value.asText? = some "b" := by
  decide +kernel

/-- A root scope, and a scope inside it. -/
def World.twoScopes : World :=
  (World.empty.addHeap.addScope (.root {} ⟨0⟩)).addScope
    { parent := some ⟨0⟩, this := none, globals := none, heap := ⟨0⟩ }

/-- When the constant `c` was declared in the root scope, the inner scope sees it, also after an
assignment of another name, and cannot assign to it. -/
theorem World.twoScopes_constant_kept :
    ∃ w w', (Stmt.declare .const [.mk "c" (some (.literal (.text "a")))]).exec
        (Machine.ofFuel 1).call ⟨0⟩ World.twoScopes = (.done .normal, w) ∧
      (Expr.assign .set (.name "d") (.literal (.text "b"))).eval (Machine.ofFuel 1).call ⟨1⟩ w =
        (.done (.text "b"), w') ∧
      w'.local? ⟨0⟩ "c" = some ⟨.text "a", true⟩ ∧
      Run.lookup ⟨1⟩ "c" w' = (.done (.text "a"), w') ∧
      Run.assign ⟨1⟩ "c" .null w' = (.failed (.wrongType "Assignment to constant variable"), w') := by
  obtain ⟨hdeclares, hruns, -, -, -, -, hkept⟩ := World.constant_kept 1 ⟨0⟩ "c"
  obtain ⟨w₁, v, w₂, hbefore, hvalue, hmade⟩ := hdeclares [] (some (.literal (.text "a"))) []
    World.twoScopes _ (by decide) (by decide) rfl
  obtain ⟨rfl, -⟩ : v = .text "a" ∧ True := ⟨(Outcome.done.inj (Prod.mk.inj hvalue).1).symm, trivial⟩
  have hmeanwhile := ((hruns ⟨1⟩).1 (.assign .set (.name "d") (.literal (.text "b")))).constant
    (r := .ok (.text "b")) hmade rfl
  obtain ⟨hconstant, hseen⟩ := hkept _ _ _ hmade hmeanwhile.1
  obtain ⟨hlookup, hassign⟩ := (hseen ⟨1⟩).1 _ rfl
  exact ⟨_, _, rfl, rfl, hconstant, hlookup, hassign .null⟩

end ScriptModules
