import ScriptModules.Proofs.Beginnings
import ScriptModules.Proofs.Printing

/-!
# Phrases

What trees of all kinds share when they are read back: the signs behind which an expression ends
(`Ends`), lists with commas (`following_reads`), and parameters (`params_read`).
-/

namespace ScriptModules

open Grammar Grammar.RuleSet Token

/-! ### Nodes -/

@[simp] theorem Built.ok_bind {α β : Type} (x : α) (f : α → Built β) :
    ((.ok x : Built α) >>= f) = f x := rfl

@[simp] theorem Built.pure_eq {α : Type} (x : α) : (pure x : Built α) = .ok x := rfl

/-- A node of the expression, as it stands between other signs. -/
def ExprNode (e : Expr) (n : Node Rule) : Prop := n.rule ≠ .functionBody ∧ Expr.ofNode n = .ok e

/-- A node of the expression as an operand. -/
def OperandNode (e : Expr) (n : Node Rule) : Prop := n.rule = .postfix_ ∧ Expr.ofNode n = .ok e

/-- A node of the expression. -/
def TreeNode (e : Expr) (n : Node Rule) : Prop := Expr.ofNode n = .ok e

theorem text_of_word {r : Rule} {x : String} {n : Node Rule} (h : WordOf r x.toList n) :
    n.text = x := by
  rw [Node.text, h.2, String.ofList_toList]

/-! ### What stands behind an expression -/

/-- No expression goes on here. -/
structure Ends (m : List Char) : Prop where
  solid : Solid m
  arrow : script.Fails (.lit "=>") m
  assign : script.Fails (.rule .assignOp) m
  access : script.Fails (.rule .postfixOp) m
  operator : script.Fails (.rule .infixOp) m
  question : script.Fails (.lit "?") m
  equals : script.Fails (.lit "=") m

namespace Laid

variable {w : Sign} {ts : List Token} {s m : List Char}

theorem not_arrow (h : Laid (.sign w :: ts) s m)
    (hw : w ∈ closers ++ operators ++ assigners ++ accessors) : script.Fails (.lit "=>") s :=
  h.sign_looks.not_sign .arrow ((by decide : ∀ w ∈ closers ++ operators ++ assigners ++ accessors,
    (Next.sign w).lacksSign .arrow = true) w hw)

theorem not_assign (h : Laid (.sign w :: ts) s m) (hw : w ∈ closers ++ operators) :
    script.Fails (.rule .assignOp) s :=
  h.sign_looks.not ((by decide :
    ∀ w ∈ closers ++ operators, (Next.sign w).excludes .assignOp = true) w hw)

theorem not_access (h : Laid (.sign w :: ts) s m) (hw : w ∈ closers ++ operators ++ assigners) :
    script.Fails (.rule .postfixOp) s :=
  h.sign_looks.not ((by decide :
    ∀ w ∈ closers ++ operators ++ assigners, (Next.sign w).excludes .postfixOp = true) w hw)

theorem not_operator (h : Laid (.sign w :: ts) s m) (hw : w ∈ .question :: closers) :
    script.Fails (.rule .infixOp) s :=
  h.sign_looks.not ((by decide :
    ∀ w ∈ .question :: closers, (Next.sign w).excludes .infixOp = true) w hw)

theorem not_question (h : Laid (.sign w :: ts) s m) (hw : w ∈ closers) :
    script.Fails (.lit "?") s :=
  h.sign_looks.not_sign .question ((by decide :
    ∀ w ∈ closers, (Next.sign w).lacksSign .question = true) w hw)

theorem not_equals (h : Laid (.sign w :: ts) s m) (hw : w ∈ closers) : script.Fails (.lit "=") s :=
  h.sign_looks.not_sign .assign ((by decide :
    ∀ w ∈ closers, (Next.sign w).lacksSign .assign = true) w hw)

/-- **An expression ends before these signs.** -/
theorem ends (h : Laid (.sign w :: ts) s m) (hw : w ∈ closers) : Ends s where
  solid := h.solid
  arrow := h.not_arrow (by simp [hw])
  assign := h.not_assign (by simp [hw])
  access := h.not_access (by simp [hw])
  operator := h.not_operator (by simp [hw])
  question := h.not_question hw
  equals := h.not_equals hw

end Laid

/-! ### Lists with commas -/

section

variable {α : Type} {p : Pattern Rule} {A : α → Node Rule → Prop} {tokens : α → List Token}
  {xs : List α} {s m : List Char}

/-- **The items of a list behind commas are read one after the other.** -/
theorem following_reads
    (hread : ∀ x ∈ xs, ∀ s m, Laid (tokens x) s m → Ends m → script.Reads p s m (Sole (A x)))
    (h : Laid (following (xs.map tokens)) s m) (hm : Ends m) (hcomma : script.Fails (.lit ",") m) :
    script.ReadsEach (.next (.lit ",") p) A xs s m ∧ Ends s := by
  induction xs generalizing s with
  | nil =>
    cases h with
    | nil _ => exact ⟨⟨rfl, hcomma.next⟩, hm⟩
  | cons x xs ih =>
    obtain ⟨k₁, hsign, h⟩ := h.uncons
    obtain ⟨k₂, hitem, hrest⟩ := h.split
    obtain ⟨hreads, hends⟩ := ih (fun y hy => hread y (List.mem_cons_of_mem _ hy)) hrest
    have hx := hread x (List.mem_cons_self ..) k₁ k₂ hitem hends
    refine ⟨⟨k₂, (hsign.lit_reads.next hx).mono ?_, hreads⟩, hsign.ends (by decide)⟩
    rintro _ ⟨_, _, rfl, rfl, n, rfl, hn⟩
    exact ⟨n, rfl, hn⟩

/-- **A list with commas is read,** if there are any items. -/
theorem separated_reads {x : α}
    (hread : ∀ y ∈ x :: xs, ∀ s m, Laid (tokens y) s m → Ends m → script.Reads p s m (Sole (A y)))
    (h : Laid (separated ((x :: xs).map tokens)) s m) (hm : Ends m)
    (hcomma : script.Fails (.lit ",") m) :
    script.Reads (.commas p) s m (List.Forall₂ A (x :: xs)) := by
  obtain ⟨k, hitem, hrest⟩ := Laid.split h
  obtain ⟨hreads, hends⟩ :=
    following_reads (fun y hy => hread y (List.mem_cons_of_mem _ hy)) hrest hm hcomma
  exact (hread x (List.mem_cons_self ..) s k hitem hends).commas hends.solid hreads

/-- A list with commas is read where one more comma may stand behind it. -/
theorem list_of_commas {P : List (Node Rule) → Prop} (h : script.Reads (.commas p) s m P)
    (hm : Solid m) (hcomma : script.Fails (.lit ",") m) :
    script.Reads (.optional (.next (.commas p) (.optional (.lit ",")))) s m P := by
  refine ((h.next (hcomma.optional hm)).mono ?_).optional
  rintro _ ⟨ns, _, rfl, hns, rfl⟩
  rwa [List.append_nil]

/-- A list with commas is read, also if there are no items. -/
theorem list_reads
    (hread : ∀ x ∈ xs, ∀ s m, Laid (tokens x) s m → Ends m → script.Reads p s m (Sole (A x)))
    (h : Laid (separated (xs.map tokens)) s m) (hm : Ends m) (hcomma : script.Fails (.lit ",") m)
    (hitem : script.Fails p m) :
    script.Reads (.optional (.commas p)) s m (List.Forall₂ A xs) ∧
      script.Reads (.optional (.next (.commas p) (.optional (.lit ",")))) s m
        (List.Forall₂ A xs) := by
  cases xs with
  | nil =>
    cases h with
    | nil hsolid =>
      have hnil : ∀ ns : List (Node Rule), Nothing ns → List.Forall₂ A [] ns := fun ns hns => by
        rw [hns]
        exact .nil
      exact ⟨(hitem.next.optional hsolid).mono hnil, (hitem.next.next.optional hsolid).mono hnil⟩
  | cons x xs =>
    have hitems := separated_reads hread h hm hcomma
    exact ⟨hitems.optional, list_of_commas hitems hm.solid hcomma⟩

end

/-! ### Parameters -/

/-- Nodes of the parameters. -/
def ParamNodes (names : List String) (ns : List (Node Rule)) : Prop := ns.map (·.text) = names

theorem paramNodes_of_words {names : List String} {ns : List (Node Rule)}
    (h : List.Forall₂ (fun x n => WordOf .identifier x.toList n) names ns) :
    ParamNodes names ns := by
  induction h with
  | nil => rfl
  | cons hx _ ih =>
    rw [ParamNodes, List.map_cons, text_of_word hx]
    exact congrArg _ ih

/-- Parameters in parentheses, as functions have them. -/
def paramPattern : Pattern Rule :=
  .seq (.lit "(") [.optional (.commas (.rule .identifier)), .lit ")"]

/-- **Parameters are read back.** -/
theorem params_read {names : List String} {s m : List Char} (h : Laid (params names) s m) :
    script.Reads paramPattern s m (ParamNodes names) := by
  obtain ⟨k₁, hopen, h⟩ := h.uncons
  obtain ⟨k₂, hnames, hclose⟩ := h.split
  have hends : Ends k₂ := hclose.ends (by decide)
  have hnames : Laid (separated (names.map fun x => [.name x])) k₁ k₂ := hnames
  have hread : ∀ x ∈ names, ∀ s m, Laid [.name x] s m → Ends m →
      script.Reads (.rule .identifier) s m (Sole (WordOf .identifier x.toList)) :=
    fun x _ s m h _ => h.name_reads
  have hlist := (list_reads hread hnames hends (hclose.sign_looks.not_sign .comma (by decide))
    (hclose.sign_looks.not (by decide))).1
  refine (hopen.lit_reads.next (hlist.next hclose.lit_reads)).mono ?_
  rintro _ ⟨_, _, rfl, rfl, ns, _, rfl, hns, rfl⟩
  rw [List.nil_append, List.append_nil]
  exact paramNodes_of_words hns

/-! ### Statements in braces -/

/-- A node of the statement. -/
def StmtNode (st : Stmt) (n : Node Rule) : Prop :=
  n.rule ≠ .endOfInput ∧ Stmt.ofNode n = .ok st

/-- **The statement is read back.** An `if` at its end must not find an `else` behind it. -/
def Stmt.Readable (σ : Style) (st : Stmt) : Prop :=
  ∀ s m, Laid (st.tokens σ) s m → (st.endsOpen = true → script.Fails (.rule .kwElse) m) →
    script.Reads (.rule .statement) s m (Sole (StmtNode st))

variable {σ : Style} {ss : List Stmt} {s m : List Char}

/-- No statement begins with `else`. -/
theorem not_else {st : Stmt} {ts : List Token} (h : Laid (st.tokens σ ++ ts) s m) :
    script.Fails (.rule .kwElse) s := by
  cases st with
  | declare kind ds => cases kind <;> exact (Laid.sign_looks h).not (by decide)
  | ret value => cases value <;> exact (Laid.sign_looks h).not (by decide)
  | ifElse test c a => cases a <;> exact (Laid.sign_looks h).not (by decide)
  | expression | function | throw | block | empty =>
    exact (Laid.sign_looks h).not (by decide)

/-- **Statements are read one after the other.** -/
theorem statements_read (hss : ∀ st ∈ ss, st.Readable σ) (h : Laid (Stmt.tokensAll σ ss) s m)
    (hend : script.Fails (.rule .statement) m) (helse : script.Fails (.rule .kwElse) m) :
    script.ReadsEach (.rule .statement) StmtNode ss s m ∧ script.Fails (.rule .kwElse) s := by
  induction ss generalizing s with
  | nil =>
    cases h with
    | nil _ => exact ⟨⟨rfl, hend⟩, helse⟩
  | cons st ss ih =>
    obtain ⟨k, hfirst, hrest⟩ := Laid.split h
    obtain ⟨hreads, hk⟩ := ih (fun st hst => hss st (List.mem_cons_of_mem _ hst)) hrest
    exact ⟨⟨k, hss st (List.mem_cons_self ..) s k hfirst fun _ => hk, hreads⟩, not_else h⟩

theorem ofNodes_statements {ns : List (Node Rule)} (h : List.Forall₂ StmtNode ss ns)
    (rest : List (Node Rule)) :
    Stmt.ofNodes (ns ++ rest) = (Stmt.ofNodes rest).map (ss ++ ·) := by
  induction h with
  | nil =>
    rw [List.nil_append]
    cases Stmt.ofNodes rest <;> rfl
  | @cons st n ss ns hst _ ih =>
    have hend : ∀ start stop parts, n = .mk .endOfInput start stop parts → False := by
      rintro start stop parts rfl
      exact hst.1 rfl
    rw [List.cons_append, Stmt.ofNodes.eq_3 n (ns ++ rest) hend, hst.2, ih]
    cases Stmt.ofNodes rest <;> rfl

/-- Nodes of the statements. -/
def StmtNodes (ss : List Stmt) (ns : List (Node Rule)) : Prop := Stmt.ofNodes ns = .ok ss

/-- Statements in braces. -/
def bracePattern : Pattern Rule := .seq (.lit "\x7b") [.many (.rule .statement), .lit "\x7d"]

/-- **Statements in braces are read back.** -/
theorem braces_read (hss : ∀ st ∈ ss, st.Readable σ) (h : Laid (braces (Stmt.tokensAll σ ss)) s m) :
    script.Reads bracePattern s m (StmtNodes ss) := by
  obtain ⟨k₁, hopen, hrest⟩ := h.uncons
  obtain ⟨k₂, hinner, hclose⟩ := hrest.split
  obtain ⟨hreads, -⟩ := statements_read hss hinner (hclose.sign_looks.not (by decide))
    (hclose.sign_looks.not (by decide))
  refine (hopen.lit_reads.next ((hreads.many hinner.solid).next hclose.lit_reads)).mono ?_
  rintro _ ⟨_, _, rfl, rfl, ns, _, rfl, hns, rfl⟩
  rw [List.nil_append, StmtNodes, ofNodes_statements hns, Stmt.ofNodes]
  exact congrArg Except.ok (List.append_nil ss)

end ScriptModules
