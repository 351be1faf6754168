import ScriptModules.Grammar.Script
import ScriptModules.Syntax.Precedence

/-!
# Tidy trees

What the evaluator may take for granted of a tree that comes from a text: a name is an identifier and
no keyword, and a constant has an initial value. That an assignment is to a variable or a member, that a
declaration of a function names it, and that an arrow has no name, is so of every tree.

A row of operators and operands comes to a tidy tree if the operands are tidy and stand where they
should (`Row.Begins.exists_toExpr`).
-/

namespace ScriptModules

open Grammar (CharClass Rule)

/-- **A name that is no keyword.** -/
structure IsIdentifier (x : String) : Prop where
  shape : ∃ y ys, x.toList = y :: ys ∧ CharClass.nameStart.has y = true ∧
    ∀ z ∈ ys, CharClass.namePart.has z = true
  notKeyword : x ∉ "var" :: Rule.keywords

mutual

/-- **An expression in which all names are identifiers and all constants have values.** -/
def Expr.Tidy : Expr → Prop
  | .literal _ | .this => True
  | .name x => IsIdentifier x
  | .list items => Expr.AllTidy items
  | .object properties => Property.AllTidy properties
  | .function name params body =>
    (∀ x ∈ name, IsIdentifier x) ∧ (∀ x ∈ params, IsIdentifier x) ∧ Stmt.AllTidy body
  | .arrow params body => (∀ x ∈ params, IsIdentifier x) ∧ body.Tidy
  | .unary _ e => e.Tidy
  | .binary _ l r | .logical _ l r => l.Tidy ∧ r.Tidy
  | .conditional test c a => test.Tidy ∧ c.Tidy ∧ a.Tidy
  | .assign _ t e => t.Tidy ∧ e.Tidy
  | .member e _ => e.Tidy
  | .index e k => e.Tidy ∧ k.Tidy
  | .call e args => e.Tidy ∧ Expr.AllTidy args

/-- All of the expressions are tidy. -/
def Expr.AllTidy : List Expr → Prop
  | [] => True
  | e :: rest => e.Tidy ∧ Expr.AllTidy rest

/-- What is assigned to is tidy. -/
def Target.Tidy : Target → Prop
  | .name x => IsIdentifier x
  | .member e _ => e.Tidy
  | .index e k => e.Tidy ∧ k.Tidy

/-- All of the properties have tidy values; their keys may be any texts. -/
def Property.AllTidy : List Property → Prop
  | [] => True
  | .mk _ e :: rest => e.Tidy ∧ Property.AllTidy rest

/-- What an arrow function does is tidy. -/
def Body.Tidy : Body → Prop
  | .block ss => Stmt.AllTidy ss
  | .value e => e.Tidy

/-- The statement is tidy. -/
def Stmt.Tidy : Stmt → Prop
  | .expression e | .ret (some e) | .throw e => e.Tidy
  | .declare kind ds => Declarator.AllTidy kind ds
  | .function name params body =>
    IsIdentifier name ∧ (∀ x ∈ params, IsIdentifier x) ∧ Stmt.AllTidy body
  | .ifElse test c none => test.Tidy ∧ c.Tidy
  | .ifElse test c (some a) => test.Tidy ∧ c.Tidy ∧ a.Tidy
  | .block ss => Stmt.AllTidy ss
  | .ret none | .empty => True

/-- All of the statements are tidy. -/
def Stmt.AllTidy : List Stmt → Prop
  | [] => True
  | s :: rest => s.Tidy ∧ Stmt.AllTidy rest

/-- All that is declared is tidy, and has an initial value if it is constant. -/
def Declarator.AllTidy (kind : DeclarationKind) : List Declarator → Prop
  | [] => True
  | .mk x none :: rest => IsIdentifier x ∧ kind ≠ .const ∧ Declarator.AllTidy kind rest
  | .mk x (some e) :: rest => IsIdentifier x ∧ e.Tidy ∧ Declarator.AllTidy kind rest

end

/-- The program is tidy. -/
def Program.Tidy (p : Program) : Prop := Stmt.AllTidy p.body

/-- What is assigned to is tidy if it is as an expression. -/
theorem Target.tidy_of_toTarget? {e : Expr} {t : Target} (h : e.toTarget? = some t) (he : e.Tidy) :
    t.Tidy := by
  cases e with
  | name | member | index =>
    cases h
    simpa [Expr.Tidy, Target.Tidy] using he
  | _ => cases h

/-! ### Rows -/

theorem InfixOp.tidy_apply {op : InfixOp} {l r : Expr} : (op.apply l r).Tidy ↔ l.Tidy ∧ r.Tidy := by
  cases op <;> simp [InfixOp.apply, Expr.Tidy]

namespace Grouping

theorem append_tidy {t : Grouping} {op : InfixOp} {e : Expr} (ht : t.toExpr.Tidy) (he : e.Tidy) :
    (t.append op e).toExpr.Tidy := by
  induction t with
  | operand x => exact InfixOp.tidy_apply.mpr ⟨ht, he⟩
  | node o l r _ ihr =>
    obtain ⟨hl, hr⟩ := InfixOp.tidy_apply.mp ht
    -- an operator that binds tighter goes into the right operand
    unfold append
    split
    · exact InfixOp.tidy_apply.mpr ⟨hl, ihr hr⟩
    · exact InfixOp.tidy_apply.mpr ⟨ht, he⟩

theorem foldl_append_tidy {t : Grouping} {rest : List (InfixOp × Expr)} (ht : t.toExpr.Tidy)
    (hrest : ∀ p ∈ rest, p.2.Tidy) :
    (rest.foldl (fun t p => t.append p.1 p.2) t).toExpr.Tidy := by
  induction rest generalizing t with
  | nil => exact ht
  | cons p rest ih =>
    obtain ⟨hp, hrest⟩ := List.forall_mem_cons.mp hrest
    exact ih (append_tidy ht hp) hrest

theorem ofRow_tidy {first : Expr} {rest : List (InfixOp × Expr)} (hfirst : first.Tidy)
    (hrest : ∀ p ∈ rest, p.2.Tidy) : (ofRow first rest).toExpr.Tidy :=
  foldl_append_tidy hfirst hrest

end Grouping

namespace Row

/-- What follows an operand: operators, each with an operand. -/
def Follows (items : List RowItem) : Prop :=
  ∃ rest, ofItems items = some ⟨none, rest⟩ ∧ ∀ p ∈ rest, p.2.Tidy

/-- An operand, and what follows it. -/
def Begins (items : List RowItem) : Prop :=
  ∃ first rest, ofItems items = some ⟨some first, rest⟩ ∧ first.Tidy ∧ ∀ p ∈ rest, p.2.Tidy

variable {items : List RowItem}

theorem Follows.nil : Follows [] := ⟨[], rfl, by simp⟩

theorem Follows.operand {e : Expr} (h : Follows items) (he : e.Tidy) :
    Begins (.operand e :: items) := by
  obtain ⟨rest, hitems, hrest⟩ := h
  exact ⟨e, rest, by rw [ofItems, hitems]; rfl, he, hrest⟩

theorem Begins.before {op : UnaryOp} (h : Begins items) : Begins (.before op :: items) := by
  obtain ⟨first, rest, hitems, hfirst, hrest⟩ := h
  refine ⟨.unary op first, rest, by rw [ofItems, hitems]; rfl, ?_, hrest⟩
  rwa [Expr.Tidy]

theorem Begins.between {op : InfixOp} (h : Begins items) : Follows (.between op :: items) := by
  obtain ⟨first, rest, hitems, hfirst, hrest⟩ := h
  exact ⟨(op, first) :: rest, by rw [ofItems, hitems]; rfl,
    List.forall_mem_cons.mpr ⟨hfirst, hrest⟩⟩

/-- **A row that begins with an operand is an expression.** -/
theorem Begins.exists_toExpr (h : Begins items) : ∃ e, RowItem.toExpr? items = some e ∧ e.Tidy := by
  obtain ⟨first, rest, hitems, hfirst, hrest⟩ := h
  refine ⟨_, ?_, Grouping.ofRow_tidy hfirst hrest⟩
  rw [RowItem.toExpr?, hitems]

end Row

end ScriptModules
