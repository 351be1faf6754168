import Mathlib.Data.List.Forall2
import ScriptModules.Proofs.Evaluator

/-!
# Evaluating twice

The same code is run twice, from two worlds, and one wants to know that the two runs go alike: they
end with related values, with the same error, or not at all (`Run.Twins`). The evaluator takes the
meaning of calls as a parameter, and it looks at values and scopes only through a few operations.
`ExprSimulation V S` lists those that expressions use, and `Simulation V S` those of statements as
well: operations on related values in corresponding scopes go alike. Then so does evaluation if calls
do, which is one induction over the syntax tree (`Expr.eval_twin` and the lemmas beside it). A
`Congruence` is not enough for this: it compares runs that handle the same values.

`V` relates the values of the two runs, and `S s t` relates the worlds that evaluation in the scope
`s` of the first run and in the scope `t` of the second one may start from and come back to. A law of
single runs is the case in which both worlds are the same (`Beside`): what lasts through everything
that an expression does itself (`Lasting`) is kept by expressions if calls keep it.
-/

namespace ScriptModules

set_option linter.unusedSectionVars false

namespace Run

variable {ε α β γ δ : Type}

/-- Two runs end alike: with related values or the same error, and in related worlds, or both without
an outcome. -/
inductive EndAlike (P : World → World → Prop) (A : α → β → Prop) :
    Outcome ε α × World → Outcome ε β × World → Prop
  | done {a b w w'} : A a b → P w w' → EndAlike P A (.done a, w) (.done b, w')
  | failed {e w w'} : P w w' → EndAlike P A (.failed e, w) (.failed e, w')
  | exhausted {w w'} : EndAlike P A (.exhausted, w) (.exhausted, w')

theorem EndAlike.mono {P Q : World → World → Prop} {A : α → β → Prop} {r : Outcome ε α × World}
    {r' : Outcome ε β × World} (h : EndAlike P A r r') (hP : ∀ w w', P w w' → Q w w') :
    EndAlike Q A r r' := by
  cases h with
  | done ha hp => exact .done ha (hP _ _ hp)
  | failed hp => exact .failed (hP _ _ hp)
  | exhausted => exact .exhausted

theorem EndAlike.andAlways {P Q : World → World → Prop} {A : α → β → Prop} {x : Run ε α}
    {y : Run ε β} {f g : World → World} {w w' : World} (h : EndAlike P A (x w) (y w'))
    (hfg : ∀ w w', P w w' → Q (f w) (g w')) :
    EndAlike Q A (Run.andAlways x f w) (Run.andAlways y g w') := by
  unfold Run.andAlways
  generalize x w = r at h ⊢
  generalize y w' = r' at h ⊢
  cases h with
  | done ha hp => exact .done ha (hfg _ _ hp)
  | failed hp => exact .failed (hfg _ _ hp)
  | exhausted => exact .exhausted

/-- **From related worlds the two runs end alike.** -/
def Twins (P : World → World → Prop) (A : α → β → Prop) (x : Run ε α) (y : Run ε β) : Prop :=
  ∀ w w', P w w' → EndAlike P A (x w) (y w')

namespace Twins

variable {P : World → World → Prop} {A A' : α → β → Prop} {B : γ → δ → Prop}
  {x : Run ε α} {y : Run ε β}

theorem mono (h : Twins P A x y) (hA : ∀ a b, A a b → A' a b) : Twins P A' x y := by
  intro w w' hw
  have hends := h w w' hw
  generalize x w = r at hends ⊢
  generalize y w' = r' at hends ⊢
  cases hends with
  | done ha hp => exact .done (hA _ _ ha) hp
  | failed hp => exact .failed hp
  | exhausted => exact .exhausted

theorem pure {a : α} {b : β} (h : A a b) : Twins P A (pure a : Run ε α) (pure b) :=
  fun _ _ hw => .done h hw

theorem fail {e : ε} : Twins P A (Run.fail e : Run ε α) (Run.fail e) := fun _ _ hw => .failed hw

theorem read {f : World → α} {g : World → β} (h : ∀ w w', P w w' → A (f w) (g w')) :
    Twins P A (Run.read f : Run ε α) (Run.read g) :=
  fun w w' hw => .done (h w w' hw) hw

theorem change {f g : World → World} (h : ∀ w w', P w w' → P (f w) (g w')) :
    Twins P Eq (Run.change f : Run ε Unit) (Run.change g) :=
  fun w w' hw => .done rfl (h w w' hw)

theorem changeGet {f : World → α × World} {g : World → β × World}
    (h : ∀ w w', P w w' → A (f w).1 (g w').1 ∧ P (f w).2 (g w').2) :
    Twins P A (Run.changeGet f : Run ε α) (Run.changeGet g) :=
  fun w w' hw => .done (h w w' hw).1 (h w w' hw).2

theorem bind {f : α → Run ε γ} {g : β → Run ε δ} (hx : Twins P A x y)
    (hf : ∀ a b, A a b → Twins P B (f a) (g b)) : Twins P B (x >>= f) (y >>= g) := by
  intro w w' hw
  have hends := hx w w' hw
  rw [bind_apply, bind_apply]
  generalize x w = r at hends ⊢
  generalize y w' = r' at hends ⊢
  cases hends with
  | done ha hp => exact hf _ _ ha _ _ hp
  | failed hp => exact .failed hp
  | exhausted => exact .exhausted

/-- Runs that go on alike after the same value. -/
theorem bind_eq {x y : Run ε α} {f : α → Run ε γ} {g : α → Run ε δ} (hx : Twins P Eq x y)
    (hf : ∀ a, Twins P B (f a) (g a)) : Twins P B (x >>= f) (y >>= g) :=
  hx.bind fun a _ hab => hab ▸ hf a

theorem andAlways {f g : World → World} (hx : Twins P A x y)
    (h : ∀ w w', P w w' → P (f w) (g w')) : Twins P A (Run.andAlways x f) (Run.andAlways y g) :=
  fun w w' hw => (hx w w' hw).andAlways h

theorem onFailure {f g : ε → World → World} (hx : Twins P A x y)
    (h : ∀ e w w', P w w' → P (f e w) (g e w')) : Twins P A (Run.onFailure f x) (Run.onFailure g y) := by
  intro w w' hw
  have hends := hx w w' hw
  unfold Run.onFailure
  generalize x w = r at hends ⊢
  generalize y w' = r' at hends ⊢
  cases hends with
  | done ha hp => exact .done ha hp
  | failed hp => exact .failed (h _ _ _ hp)
  | exhausted => exact .exhausted

/-- What is known of the world beside which another goes alike. -/
theorem leads {J K : World → Prop} (h : Twins P A x y) (hJ : ∀ w, J w → ∃ w', P w w')
    (hK : ∀ w w', P w w' → K w) : Leads J x (fun _ => K) fun _ => True := by
  intro w hw
  obtain ⟨w', hp⟩ := hJ w hw
  have hends := h w w' hp
  generalize x w = r at hends ⊢
  generalize y w' = r' at hends
  cases hends with
  | done _ hp => exact hK _ _ hp
  | failed hp => exact hK _ _ hp
  | exhausted => trivial

/-- A run beside itself, from a world that it keeps to. -/
theorem diagonal {J E : World → Prop} {x : Run ε α} (h : Keeps J E x) :
    Twins (fun w w' => w = w' ∧ J w) Eq x x := by
  rintro w _ ⟨rfl, hw⟩
  have hends := h w hw
  generalize x w = r at hends ⊢
  rcases r with ⟨a | e | _, w₁⟩
  · exact .done rfl ⟨rfl, hends⟩
  · exact .failed ⟨rfl, hends⟩
  · exact .exhausted

end Twins

/-- What begins with a new scope inside another. -/
theorem newInnerScope_bind (s : Ref .scope) (own : Option Value) (f : Ref .scope → Run ε α)
    (w : World) : (newInnerScope s own >>= f) w = f w.scopes.fresh
      (w.addScope { parent := some s, this := own, globals := none, heap := w.heapOf s }) := rfl

end Run

open Run

/-! ### Simulations -/

variable {α β : Type}

/-- Whether the value is a constant: it mentions nothing that is shared. -/
def Value.isConstant : Value → Bool
  | .undefined | .null | .boolean _ | .number _ | .text _ => true
  | _ => false

theorem Literal.isConstant_value (l : Literal) : l.value.isConstant = true := by
  cases l <;> rfl

/-- Values of the two runs in order. -/
abbrev AllAlike (V : Value → Value → Prop) (a b : Array Value) : Prop :=
  List.Forall₂ V a.toList b.toList

theorem AllAlike.getElem? {V : Value → Value → Prop} {a b : Array Value} (h : AllAlike V a b)
    (i : Nat) : Option.Rel V a[i]? b[i]? := by
  rw [← Array.getElem?_toList, ← Array.getElem?_toList]
  replace h : List.Forall₂ V a.toList b.toList := h
  generalize a.toList = vs at h
  generalize b.toList = us at h
  induction h generalizing i with
  | nil => exact .none
  | cons hv _ ih =>
    cases i with
    | zero => exact .some hv
    | succ i => exact ih i

theorem rel_getD {R : α → β → Prop} {x : Option α} {y : Option β} (h : Option.Rel R x y) {a : α}
    {b : β} (hd : R a b) : R (x.getD a) (y.getD b) := by
  cases h with
  | some h => exact h
  | none => exact hd

/-- Keys and values of the two runs in order. -/
abbrev FieldAlike (V : Value → Value → Prop) (p q : String × Value) : Prop := p.1 = q.1 ∧ V p.2 q.2

/-- **The operations through which expressions look at values and scopes go alike.** -/
structure ExprSimulation (V : Value → Value → Prop)
    (S : Ref .scope → Ref .scope → World → World → Prop) : Prop where
  constant : ∀ {v}, v.isConstant = true → V v v
  isTruthy : ∀ {v v'}, V v v' → v.isTruthy = v'.isTruthy
  typeOf : ∀ {v v'}, V v v' → v.typeOf = v'.typeOf
  /-- Functions are related to functions only. -/
  function : ∀ {v v'}, V v v' → (∃ f f', v = .function f ∧ v' = .function f') ∨
    (∀ f, v ≠ .function f) ∧ ∀ f, v' ≠ .function f
  textOf : ∀ {s t v v'}, V v v' → Twins (S s t) Eq (Run.textOf v : Script _) (Run.textOf v')
  numberOf : ∀ {s t v v'}, V v v' → Twins (S s t) Eq (Run.numberOf v : Script _) (Run.numberOf v')
  apply : ∀ {s t a a' b b'} (op : BinaryOp), V a a' → V b b' →
    Twins (S s t) V (op.apply a b : Script _) (op.apply a' b')
  newList : ∀ {s t vs vs'}, AllAlike V vs vs' →
    Twins (S s t) (fun l l' => V (.list l) (.list l')) (Run.newList vs : Script _) (Run.newList vs')
  newObject : ∀ {s t ps ps'}, List.Forall₂ (FieldAlike V) ps ps' →
    Twins (S s t) (fun o o' => V (.object o) (.object o'))
      (Run.newObject { properties := .ofList ps } : Script _)
      (Run.newObject { properties := .ofList ps' })
  makeClosure : ∀ {s t} (name params body isArrow),
    Twins (S s t) V (makeClosure s name params body isArrow) (makeClosure t name params body isArrow)
  this : ∀ {s t}, Twins (S s t) V (Run.read (·.thisOf s) : Script _) (Run.read (·.thisOf t))
  tryLookup : ∀ {s t} (x : String),
    Twins (S s t) (Option.Rel V) (Run.tryLookup s x : Script _) (Run.tryLookup t x)
  assign : ∀ {s t v v'} (x : String), V v v' → Twins (S s t) Eq (Run.assign s x v) (Run.assign t x v')
  getMember : ∀ {s t v v'} (key : String), V v v' →
    Twins (S s t) V (Run.getMember v key) (Run.getMember v' key)
  setMember : ∀ {s t v v' u u'} (key : String), V v v' → V u u' →
    Twins (S s t) Eq (Run.setMember v key u) (Run.setMember v' key u')
  mark : ∀ {s t w w'} (m : Moment), S s t w w' → S s t (w.mark m) (w'.mark m)

/-- **The operations through which evaluation looks at values and scopes go alike.** Statements also
declare names and make scopes. -/
structure Simulation (V : Value → Value → Prop)
    (S : Ref .scope → Ref .scope → World → World → Prop) : Prop extends ExprSimulation V S where
  declare : ∀ {s t v v'} (x : String) (constant : Bool), V v v' →
    Twins (S s t) Eq (Run.declare s x v constant : Script _) (Run.declare t x v' constant)
  /-- What goes alike in new scopes goes alike around them. -/
  inner : ∀ {s t} {α : Type} {A : α → α → Prop} {f g : Ref .scope → Script α},
    (∀ s' t', Twins (S s' t') A (f s') (g t')) →
      Twins (S s t) A (Run.newInnerScope s none >>= f) (Run.newInnerScope t none >>= g)

/-- **Calls of related functions go alike,** whatever scope they are made in. -/
def CallsAlike (V : Value → Value → Prop) (S : Ref .scope → Ref .scope → World → World → Prop)
    (call call' : CallSemantics) : Prop :=
  ∀ {s t f f' this this' arguments arguments'}, V (.function f) (.function f') → V this this' →
    AllAlike V arguments arguments' →
    Twins (S s t) V (call f this arguments) (call' f' this' arguments')

variable {V : Value → Value → Prop} {S : Ref .scope → Ref .scope → World → World → Prop}

/-! ### Expressions -/

section

variable (L : ExprSimulation V S)

namespace ExprSimulation

include L

theorem undefined : V .undefined .undefined := L.constant rfl

theorem lookup {s t : Ref .scope} (x : String) :
    Twins (S s t) V (Run.lookup s x) (Run.lookup t x) := by
  refine (L.tryLookup x).bind fun v v' h => ?_
  cases h with
  | some h => exact .pure h
  | none => exact .fail

theorem combine {s t : Ref .scope} (op : AssignOp) {x y : Script Value} {v v' : Value}
    (hx : Twins (S s t) V x y) (hv : V v v') :
    Twins (S s t) V (op.combine x v) (op.combine y v') := by
  cases op with
  | set => exact .pure hv
  | add => exact hx.bind fun _ _ h => L.apply .add h hv
  | subtract => exact hx.bind fun _ _ h => L.apply .subtract h hv

end ExprSimulation

variable {call call' : CallSemantics} (hc : CallsAlike V S call call')

include L hc

theorem callValue_twin {s t : Ref .scope} {v v' this this' : Value} {arguments arguments' : Array Value}
    (description : String) (hv : V v v') (hthis : V this this')
    (harguments : AllAlike V arguments arguments') :
    Twins (S s t) V (callValue call v description this arguments)
      (callValue call' v' description this' arguments') := by
  rcases L.function hv with ⟨f, f', rfl, rfl⟩ | ⟨hv, hv'⟩
  · exact (hc hv hthis harguments).onFailure fun _ _ _ => L.mark _
  · have hfails : ∀ (call : CallSemantics) (v this : Value) (arguments : Array Value),
        (∀ f, v ≠ .function f) → callValue call v description this arguments =
          Run.fail (.wrongType (description ++ " is not a function")) := by
      intro call v this arguments hv
      cases v with
      | function f => exact absurd rfl (hv f)
      | _ => rfl
    rw [hfails call v this arguments hv, hfails call' v' this' arguments' hv']
    exact .fail

mutual

/-- **Expressions go alike** if calls do. -/
theorem Expr.eval_twin (s t : Ref .scope) : ∀ e : Expr,
    Twins (S s t) V (e.eval call s) (e.eval call' t)
  | .literal l => .pure (L.constant l.isConstant_value)
  | .name x => L.lookup x
  | .this => L.this
  | .list items =>
    (Expr.evalAll_twin s t items).bind fun _ _ h => (L.newList h).bind fun _ _ hl => .pure hl
  | .object properties =>
    (Property.evalAll_twin s t properties).bind fun _ _ h =>
      (L.newObject h).bind fun _ _ ho => .pure ho
  | .function _ _ _ => L.makeClosure _ _ _ _
  | .arrow _ _ => L.makeClosure _ _ _ _
  | .unary .not e => (Expr.eval_twin s t e).bind fun _ _ h => by
    rw [L.isTruthy h]
    exact .pure (L.constant rfl)
  | .unary .minus e => (Expr.eval_twin s t e).bind fun _ _ h =>
    (L.numberOf h).bind_eq fun _ => .pure (L.constant rfl)
  | .unary .typeOf e => by
    cases e with
    | name x =>
      refine (L.tryLookup x).bind fun v v' h => ?_
      cases h with
      | some h =>
        simp only [Option.getD_some, L.typeOf h]
        exact .pure (L.constant rfl)
      | none => exact .pure (L.constant rfl)
    | _ =>
      refine (Expr.eval_twin s t _).bind fun v v' h => ?_
      rw [L.typeOf h]
      exact .pure (L.constant rfl)
  | .binary op l r =>
    (Expr.eval_twin s t l).bind fun _ _ ha => (Expr.eval_twin s t r).bind fun _ _ hb => L.apply op ha hb
  | .logical .and l r => (Expr.eval_twin s t l).bind fun _ _ h => by
    rw [L.isTruthy h]
    split
    · exact Expr.eval_twin s t r
    · exact .pure h
  | .logical .or l r => (Expr.eval_twin s t l).bind fun _ _ h => by
    rw [L.isTruthy h]
    split
    · exact .pure h
    · exact Expr.eval_twin s t r
  | .conditional test consequent alternate => (Expr.eval_twin s t test).bind fun _ _ h => by
    rw [L.isTruthy h]
    split
    · exact Expr.eval_twin s t consequent
    · exact Expr.eval_twin s t alternate
  | .assign op (.name x) e =>
    (Expr.eval_twin s t e).bind fun _ _ hrhs => (L.combine op (L.lookup x) hrhs).bind fun _ _ hv =>
      (L.assign x hv).bind_eq fun _ => .pure hv
  | .assign op (.member o key) e =>
    (Expr.eval_twin s t o).bind fun _ _ htarget => (Expr.eval_twin s t e).bind fun _ _ hrhs =>
      (L.combine op (L.getMember key htarget) hrhs).bind fun _ _ hv =>
        (L.setMember key htarget hv).bind_eq fun _ => .pure hv
  | .assign op (.index o k) e =>
    (Expr.eval_twin s t o).bind fun _ _ htarget => (Expr.eval_twin s t k).bind fun _ _ hk =>
      (L.textOf hk).bind_eq fun key => (Expr.eval_twin s t e).bind fun _ _ hrhs =>
        (L.combine op (L.getMember key htarget) hrhs).bind fun _ _ hv =>
          (L.setMember key htarget hv).bind_eq fun _ => .pure hv
  | .member o key => (Expr.eval_twin s t o).bind fun _ _ h => L.getMember key h
  | .index o k =>
    (Expr.eval_twin s t o).bind fun _ _ h => (Expr.eval_twin s t k).bind fun _ _ hk =>
      (L.textOf hk).bind_eq fun key => L.getMember key h
  | .call callee arguments => by
    -- the callee of a method call is its receiver and then a member of it
    cases callee with
    | member o key =>
      exact (Expr.eval_twin s t o).bind fun _ _ hthis => (L.getMember key hthis).bind fun _ _ hf =>
        (Expr.evalAll_twin s t arguments).bind fun _ _ h => callValue_twin L hc _ hf hthis h
    | index o k =>
      exact (Expr.eval_twin s t o).bind fun _ _ hthis => (Expr.eval_twin s t k).bind fun _ _ hk =>
        (L.textOf hk).bind_eq fun key => (L.getMember key hthis).bind fun _ _ hf =>
          (Expr.evalAll_twin s t arguments).bind fun _ _ h => callValue_twin L hc _ hf hthis h
    | _ =>
      exact (Expr.eval_twin s t _).bind fun _ _ hf =>
        (Expr.evalAll_twin s t arguments).bind fun _ _ h => callValue_twin L hc _ hf L.undefined h

theorem Expr.evalAll_twin (s t : Ref .scope) : ∀ es : List Expr,
    Twins (S s t) (List.Forall₂ V) (Expr.evalAll call s es) (Expr.evalAll call' t es)
  | [] => .pure .nil
  | e :: rest =>
    (Expr.eval_twin s t e).bind fun _ _ h => (Expr.evalAll_twin s t rest).bind fun _ _ hs =>
      .pure (.cons h hs)

theorem Property.evalAll_twin (s t : Ref .scope) : ∀ ps : List Property,
    Twins (S s t) (List.Forall₂ (FieldAlike V)) (Property.evalAll call s ps)
      (Property.evalAll call' t ps)
  | [] => .pure .nil
  | .mk _ e :: rest =>
    (Expr.eval_twin s t e).bind fun _ _ h => (Property.evalAll_twin s t rest).bind fun _ _ hs =>
      .pure (.cons ⟨rfl, h⟩ hs)

end

end

/-! ### Statements and programs -/

section

variable (L : Simulation V S)

namespace Simulation

include L

theorem hoist {s t : Ref .scope} (statements : List Stmt) :
    Twins (S s t) Eq (hoist s statements) (hoist t statements) := by
  induction statements with
  | nil => exact .pure rfl
  | cons stmt rest ih =>
    cases stmt with
    | function name params body =>
      exact (L.makeClosure name params (.block body) false).bind fun _ _ h =>
        (L.declare name false h).bind_eq fun _ => ih
    | _ => exact ih

theorem bindParams {s t : Ref .scope} {a b : Array Value} (h : AllAlike V a b) (i : Nat)
    (params : List String) :
    Twins (S s t) Eq (bindParams s a i params) (bindParams t b i params) := by
  induction params generalizing i with
  | nil => exact .pure rfl
  | cons x rest ih =>
    exact (L.declare x false (rel_getD (h.getElem? i) L.undefined)).bind_eq fun _ => ih (i + 1)

theorem bindArguments {s t : Ref .scope} {a b : Array Value} (h : AllAlike V a b) :
    Twins (S s t) Eq (bindArguments s a) (bindArguments t b) :=
  (L.newList h).bind fun _ _ hl => L.declare "arguments" false hl

end Simulation

variable {call call' : CallSemantics} (hc : CallsAlike V S call call')

include L hc

theorem Declarator.execAll_twin (s t : Ref .scope) (constant : Bool) (ds : List Declarator) :
    Twins (S s t) Eq (Declarator.execAll call s constant ds)
      (Declarator.execAll call' t constant ds) := by
  induction ds with
  | nil => exact .pure rfl
  | cons d rest ih =>
    obtain ⟨name, init⟩ := d
    cases init with
    | some e =>
      exact (Expr.eval_twin L.toExprSimulation hc s t e).bind fun _ _ h =>
        (L.declare name constant h).bind_eq fun _ => ih
    | none =>
      have hnone : Twins (S s t) V (pure .undefined : Script _) (pure .undefined) := .pure L.undefined
      exact hnone.bind fun _ _ h => (L.declare name constant h).bind_eq fun _ => ih

/-- Statements end the same way, with related values. -/
inductive Completion.Alike (V : Value → Value → Prop) : Completion → Completion → Prop
  | normal : Alike V .normal .normal
  | returned {v v'} : V v v' → Alike V (.returned v) (.returned v')

mutual

/-- **Statements go alike** if calls do. -/
theorem Stmt.exec_twin : ∀ (s t : Ref .scope) (stmt : Stmt),
    Twins (S s t) (Completion.Alike V) (stmt.exec call s) (stmt.exec call' t)
  | _, _, .empty => .pure .normal
  | s, t, .expression e => (Expr.eval_twin L.toExprSimulation hc s t e).bind fun _ _ _ => .pure .normal
  | s, t, .declare _ ds => (Declarator.execAll_twin L hc s t _ ds).bind_eq fun _ => .pure .normal
  | _, _, .function .. => .pure .normal
  | _, _, .ret none => .pure (.returned L.undefined)
  | s, t, .ret (some e) => (Expr.eval_twin L.toExprSimulation hc s t e).bind fun _ _ h => .pure (.returned h)
  | s, t, .ifElse test consequent (some alternate) => by
    refine (Expr.eval_twin L.toExprSimulation hc s t test).bind fun v v' h => ?_
    rw [L.isTruthy h]
    split
    · exact Stmt.exec_twin s t consequent
    · exact Stmt.exec_twin s t alternate
  | s, t, .ifElse test consequent none => by
    refine (Expr.eval_twin L.toExprSimulation hc s t test).bind fun v v' h => ?_
    rw [L.isTruthy h]
    split
    · exact Stmt.exec_twin s t consequent
    · exact .pure .normal
  | s, t, .throw e =>
    (Expr.eval_twin L.toExprSimulation hc s t e).bind fun _ _ h => (L.textOf h).bind_eq fun _ => .fail
  | _, _, .block statements =>
    L.inner fun s' t' => (L.hoist statements).bind_eq fun _ => Stmt.execAll_twin s' t' statements

theorem Stmt.execAll_twin : ∀ (s t : Ref .scope) (statements : List Stmt),
    Twins (S s t) (Completion.Alike V) (Stmt.execAll call s statements)
      (Stmt.execAll call' t statements)
  | _, _, [] => .pure .normal
  | s, t, stmt :: rest => (Stmt.exec_twin s t stmt).bind fun _ _ h => by
    cases h with
    | returned h => exact .pure (.returned h)
    | normal => exact Stmt.execAll_twin s t rest

end

theorem Stmt.runAll_twin (s t : Ref .scope) (statements : List Stmt) :
    Twins (S s t) V (Stmt.runAll call s statements) (Stmt.runAll call' t statements) := by
  fun_induction Stmt.runAll call s statements with
  | case1 => exact .pure L.undefined
  | case2 e =>
    refine (Expr.eval_twin L.toExprSimulation hc s t e).bind fun _ _ h => ?_
    split
    · exact .pure L.undefined
    · exact .pure h
  | case3 stmt rest hlast ih =>
    -- the other evaluator goes through the same clause, since that depends on the statements
    rw [Stmt.runAll.eq_3 call' t stmt rest hlast]
    refine (Stmt.exec_twin L hc s t stmt).bind fun _ _ h => ?_
    cases h with
    | returned h => exact .pure h
    | normal => exact ih

/-- **Programs go alike** in corresponding root scopes if calls do. -/
theorem Program.run_twin (p : Program) (s t : Ref .scope) :
    Twins (S s t) V (p.run call s) (p.run call' t) :=
  (L.hoist p.body).bind_eq fun _ => Stmt.runAll_twin L hc s t p.body

theorem Body.run_twin (s t : Ref .scope) (body : Body) :
    Twins (S s t) V (body.run call s) (body.run call' t) := by
  cases body with
  | value e => exact Expr.eval_twin L.toExprSimulation hc s t e
  | block statements =>
    have hblock : Twins (S s t) (Completion.Alike V) (runBlock call s statements)
        (runBlock call' t statements) :=
      (L.hoist statements).bind_eq fun _ => Stmt.execAll_twin L hc s t statements
    refine hblock.bind fun _ _ h => ?_
    cases h with
    | returned h => exact .pure h
    | normal => exact .pure L.undefined

/-- **What a function does in the scope of its call goes alike.** It is left to `henter` to say how the
scope is made. -/
theorem Closure.run_twin (c : Closure) (scope' : Ref .scope) {this this' : Value}
    {arguments arguments' : Array Value} {P : World → World → Prop}
    (harguments : AllAlike V arguments arguments')
    (henter : ∀ {f g : Ref .scope → Script Value}, (∀ s t, Twins (S s t) V (f s) (g t)) →
      Twins P V (Run.newInnerScope c.scope (if c.isArrow then none else some this) >>= f)
        (Run.newInnerScope scope' (if c.isArrow then none else some this') >>= g)) :
    Twins P V (c.run call this arguments)
      ({ c with scope := scope' }.run call' this' arguments') := by
  refine henter fun s t => (L.bindParams harguments 0 c.params).bind_eq fun _ => ?_
  -- only functions that are no arrows have `arguments`
  split
  · exact (L.bindArguments harguments).bind_eq fun _ => Body.run_twin L hc s t c.body
  · exact Body.run_twin L hc s t c.body

end

/-! ### Evaluating beside itself -/

/-- A run beside itself: the scope of the evaluation is the same, and so is the world, of which `J`
holds. -/
def Beside (J : Ref .scope → World → Prop) (s t : Ref .scope) (w w' : World) : Prop :=
  s = t ∧ w = w' ∧ J s w

section

variable {J : Ref .scope → World → Prop} {s t : Ref .scope} {α : Type}

theorem Beside.twins {x : Ref .scope → Script α} (hx : Keeps (J s) (fun _ => True) (x s)) :
    Twins (Beside J s t) Eq (x s) (x t) := by
  rintro w _ ⟨rfl, rfl, hw⟩
  have hends := Twins.diagonal hx w w ⟨rfl, hw⟩
  generalize x s w = r at hends ⊢
  cases hends with
  | done ha hp => exact .done ha ⟨rfl, hp⟩
  | failed hp => exact .failed ⟨rfl, hp⟩
  | exhausted => exact .exhausted

/-- What goes alike in a new scope goes alike around it. -/
theorem Beside.inner {P : World → World → Prop} {β γ : Type} {A : β → γ → Prop}
    {this this' : Option Value} {f : Ref .scope → Script β} {g : Ref .scope → Script γ}
    (hbefore : ∀ w w', P w w' → s = t ∧ this = this' ∧ w = w' ∧ J w.scopes.fresh
      (w.addScope { parent := some s, this := this, globals := none, heap := w.heapOf s }))
    (hafter : ∀ w w₁, P w w → J w.scopes.fresh w₁ → P w₁ w₁)
    (hf : ∀ s t, Twins (Beside J s t) A (f s) (g t)) :
    Twins P A (Run.newInnerScope s this >>= f) (Run.newInnerScope t this' >>= g) := by
  intro w w' hw
  obtain ⟨rfl, rfl, rfl, hinside⟩ := hbefore w w' hw
  rw [Run.newInnerScope_bind, Run.newInnerScope_bind]
  refine (hf _ _ _ _ ⟨rfl, rfl, hinside⟩).mono ?_
  rintro w₁ _ ⟨-, rfl, hw₁⟩
  exact hafter w w₁ hw hw₁

/-- What goes alike beside itself keeps the property. -/
theorem Beside.keeps {A : α → α → Prop} {x : Script α} (hx : Twins (Beside J s s) A x x) :
    Keeps (J s) (fun _ => True) x :=
  hx.leads (fun w hw => ⟨w, rfl, rfl, hw⟩) fun _ _ hp => hp.2.2

end

/-- **A property that lasts while expressions are evaluated in a scope,** apart from what calls do. -/
structure Lasting (J : Ref .scope → World → Prop) : Prop where
  inert : ∀ {s w w'}, World.Inert w w' → J s w → J s w'
  closure : ∀ {w} (c : Closure), J c.scope w →
    J c.scope { w with functions := w.functions.add (.closure c) }
  assign : ∀ s x v, Keeps (J s) (fun _ => True) (Run.assign s x v)

namespace Lasting

variable {J : Ref .scope → World → Prop} (L : Lasting J) {s t : Ref .scope} {α : Type}

include L

theorem quiet {x : Script α} (hx : x.Within World.Quiet) (s : Ref .scope) :
    Keeps (J s) (fun _ => True) x :=
  hx.leads (fun _ _ hw hq => L.inert hq.toInert hw) fun _ _ => trivial

theorem twins_of_quiet {x : Script α} (hx : x.Within World.Quiet) : Twins (Beside J s t) Eq x x :=
  Beside.twins (x := fun _ => x) (L.quiet hx s)

/-- **Expressions beside themselves.** -/
theorem exprSimulation : ExprSimulation Eq (Beside J) where
  constant _ := rfl
  isTruthy hv := by rw [hv]
  typeOf hv := by rw [hv]
  function {v v'} hv := by
    subst hv
    cases v with
    | function f => exact .inl ⟨f, f, rfl, rfl⟩
    | _ => exact .inr ⟨nofun, nofun⟩
  textOf hv := hv ▸ L.twins_of_quiet (Run.textOf_quiet _)
  numberOf hv := hv ▸ L.twins_of_quiet (Run.numberOf_quiet _)
  apply op ha hb := ha ▸ hb ▸ L.twins_of_quiet (op.apply_within _ _)
  newList {s t vs vs'} hvs := by
    obtain rfl : vs = vs' := Array.toList_inj.mp (List.forall₂_eq_eq_eq ▸ hvs)
    exact (L.twins_of_quiet (Run.newList_quiet vs)).mono fun _ _ hl => by rw [hl]
  newObject {s t ps ps'} hps := by
    -- the properties are related one by one, by their keys and values
    have heq : ps = ps' := by
      induction hps with
      | nil => rfl
      | cons hp _ ih => rw [ih, Prod.ext hp.1 hp.2]
    subst heq
    exact (L.twins_of_quiet (Run.newObject_quiet _)).mono fun _ _ ho => by rw [ho]
  makeClosure name params body isArrow :=
    Beside.twins (x := fun s => makeClosure s name params body isArrow)
      (Keeps.bind (Leads.changeGet fun _ hw => L.closure ⟨name, params, body, isArrow, _⟩ hw) fun _ =>
        Keeps.pure)
  this := Beside.twins (x := fun s => Run.read (·.thisOf s)) Keeps.read
  tryLookup {s t} x := by
    refine (Beside.twins (x := fun s => Run.tryLookup s x)
      (L.quiet (Run.tryLookup_quiet s x) s)).mono fun a b hab => ?_
    subst hab
    cases a with
    | none => exact .none
    | some v => exact .some rfl
  assign {s t v v'} x hv := hv ▸ Beside.twins (x := fun s => Run.assign s x v) (L.assign s x v)
  getMember key hv := hv ▸ L.twins_of_quiet (Run.getMember_quiet _ key)
  setMember {s t v v' u u'} key hv hu := by
    subst hv hu
    exact L.twins_of_quiet (Run.setMember_quiet v key u)
  mark {s t w w'} m hw := by
    obtain ⟨rfl, rfl, hw⟩ := hw
    have hinert : World.Inert w (w.mark m) := .of_same rfl rfl rfl rfl
    exact ⟨rfl, rfl, L.inert hinert hw⟩

end Lasting

/-- Calls that keep the property in every scope go alike beside themselves. -/
theorem CallsAlike.beside {J : Ref .scope → World → Prop} {call : CallSemantics}
    (hc : ∀ s f this arguments, Keeps (J s) (fun _ => True) (call f this arguments)) :
    CallsAlike Eq (Beside J) call call := by
  rintro s t f f' this this' arguments arguments' hf rfl harguments
  obtain rfl := Value.function.inj hf
  obtain rfl : arguments = arguments' := Array.toList_inj.mp (List.forall₂_eq_eq_eq ▸ harguments)
  exact Beside.twins (x := fun _ => call f this arguments) (hc s f this arguments)

end ScriptModules
