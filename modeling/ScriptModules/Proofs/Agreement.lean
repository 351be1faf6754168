import ScriptModules.Proofs.Expressions
import ScriptModules.Proofs.Lexemes
import ScriptModules.Proofs.Shapes
import ScriptModules.Proofs.Stories

/-!
# The grammar and the trees agree

Trees are built from nodes by position: the first child of an `if` is its word, the second its test. So
the functions that build them rely on what the rules of the grammar leave behind. `Means` says for each
rule what becomes of its node, and `script_means` that this is a law of nodes, with one lemma for each
rule that has parts.

It follows that a text that the grammar accepts has a tree, or one of three faults, and nothing else can
go wrong with it (`Program.parse_agrees`). The tree is tidy, and so no evaluation of it meets anything
that is no script.
-/

namespace ScriptModules

open Grammar (Node Rule Cursor Sole)
open Grammar.Pattern

/-! ### Trees and faults -/

/-- **The three faults** of texts that the grammar accepts. -/
def SyntaxCause.ofTrees : List SyntaxCause := [.missingInitializer, .invalidTarget, .invalidEscape]

/-- **What is built is like this,** or there is one of the three faults. -/
def Built.Sound {α : Type} (P : α → Prop) : Built α → Prop
  | .ok a => P a
  | .error f => f.cause ∈ SyntaxCause.ofTrees

namespace Built.Sound

variable {α β : Type} {P : α → Prop} {Q : β → Prop} {x : Built α}

theorem fault {cause : SyntaxCause} (h : cause ∈ SyntaxCause.ofTrees) (n : Node Rule) :
    Sound P (ScriptModules.fault cause n) := h

theorem bind {f : α → Built β} (hx : Sound P x) (hf : ∀ a, P a → Sound Q (f a)) :
    Sound Q (x >>= f) := by
  cases x with
  | ok a => exact hf a hx
  | error e => exact hx

theorem map {f : α → β} (hx : Sound P x) (hf : ∀ a, P a → Q (f a)) : Sound Q (x.map f) := by
  cases x with
  | ok a => exact hf a hx
  | error e => exact hx

end Built.Sound

open Built (Sound)

/-! ### Nodes -/

theorem Grammar.Node.exists_mk {r : Rule} {n : Node Rule} (h : n.rule = r) :
    ∃ start stop parts, n = .mk r start stop parts := by
  obtain ⟨_, start, stop, parts⟩ := n
  exact ⟨start, stop, parts, congrArg (Node.mk · start stop parts) h⟩

theorem Grammar.Node.ne_mk {r : Rule} {n : Node Rule} (h : n.rule ≠ r) :
    ∀ start stop parts, n = .mk r start stop parts → False := by
  rintro start stop parts rfl
  exact h rfl

/-- The node has the tree of an expression. -/
def MeansExpr (n : Node Rule) : Prop := n.rule ≠ .functionBody ∧ Sound Expr.Tidy (Expr.ofNode n)

/-- The node has the tree of a statement. -/
def MeansStmt (n : Node Rule) : Prop := n.rule ≠ .endOfInput ∧ Sound Stmt.Tidy (Stmt.ofNode n)

/-- The node applies something to an expression. -/
def MeansApplication (n : Node Rule) : Prop :=
  ∀ e rest, e.Tidy → (∀ e', e'.Tidy → Sound Expr.Tidy (Expr.applyNodes e' rest)) →
    Sound Expr.Tidy (Expr.applyNodes e (n :: rest))

/-- The node declares a name, with or without an initial value. -/
def MeansDeclarator (n : Node Rule) : Prop :=
  ∃ start stop name, IsIdentifier name.text ∧
    (n = .mk .variableDeclaration start stop [name] ∨
      ∃ init, n = .mk .variableDeclaration start stop [name, init] ∧ MeansExpr init)

/-- The node is a property, or a name that stands for one. -/
def MeansProperty (n : Node Rule) : Prop :=
  ∃ start stop key, (n = .mk .property start stop [key] ∧ IsIdentifier key.text) ∨
    ∃ value, n = .mk .property start stop [key, value] ∧ Sound (fun _ => True) (keyText key) ∧
      MeansExpr value

/-- **What becomes of the node of each rule.** -/
def Means : Rule → Node Rule → Prop
  | .identifier, n => n.rule = .identifier ∧ IsIdentifier n.text
  | .numberLiteral, n => n.rule = .numberLiteral ∧ ∃ x, Number.read? n.chars = some x
  | .stringLiteral, n => n.rule = .stringLiteral ∧ Sound (fun _ => True) (literalText n)
  | .statement, n | .functionDeclaration, n | .variableStatement, n | .returnStatement, n
  | .ifStatement, n | .throwStatement, n | .block, n | .emptyStatement, n
  | .expressionStatement, n => MeansStmt n
  | .expression, n | .arrowFunction, n | .assignment, n | .conditional, n | .binary, n | .primary, n
  | .functionExpression, n | .arrayLiteral, n | .objectLiteral, n | .parenthesized, n => MeansExpr n
  | .postfix_, n => n.rule = .postfix_ ∧ MeansExpr n
  | .variableDeclaration, n => MeansDeclarator n
  | .property, n => MeansProperty n
  | .postfixOp, n | .callArguments, n | .memberDot, n | .memberIndex, n => MeansApplication n
  | .params, n | .arrowParams, n => ∀ x ∈ paramNames n, IsIdentifier x
  | .functionBody, n => n.rule = .functionBody ∧ Sound Stmt.AllTidy (Stmt.ofNodes n.children)
  | .script, n => Sound Stmt.AllTidy (Stmt.ofNodes n.children)
  | .prefixOp, n => n.rule ≠ .postfix_ ∧ ∃ op, UnaryOp.ofRule? n.rule = some op
  | .infixOp, n => n.rule ≠ .postfix_ ∧ UnaryOp.ofRule? n.rule = none ∧
      ∃ op, InfixOp.ofRule? n.rule = some op
  | r, n => n.rule = r

section

variable {ns : List (Node Rule)} {start : Cursor} {stop : Nat}

/-! ### Lists of nodes -/

/-- The statements up to the end of the text, which is none. -/
theorem ofNodes_statements_sound (h : ∀ n ∈ ns, MeansStmt n) {last : List (Node Rule)}
    (hlast : ∀ n ∈ last, n.rule = .endOfInput) :
    Sound Stmt.AllTidy (Stmt.ofNodes (ns ++ last)) := by
  induction ns with
  | nil =>
    rw [List.nil_append]
    induction last with
    | nil => exact trivial
    | cons n last ih =>
      obtain ⟨hn, hrest⟩ := List.forall_mem_cons.mp hlast
      obtain ⟨start, stop, parts, rfl⟩ := Node.exists_mk hn
      rw [Stmt.ofNodes]
      exact ih hrest
  | cons n ns ih =>
    obtain ⟨⟨hrule, hn⟩, hns⟩ := List.forall_mem_cons.mp h
    rw [List.cons_append, Stmt.ofNodes.eq_3 n (ns ++ last) (Node.ne_mk hrule)]
    exact hn.bind fun s hs => (ih hns).bind fun ss hss => ⟨hs, hss⟩

/-- The statements between braces. -/
theorem ofNodes_braces_sound
    (h : (seq (lit "\x7b") [many (rule .statement), lit "\x7d"]).Shapes Means ns) :
    Sound Stmt.AllTidy (Stmt.ofNodes ns) := by
  have hinner := shapes_enclosed h
  have hall : Sound Stmt.AllTidy (Stmt.ofNodes (ns ++ [])) :=
    ofNodes_statements_sound (shapes_many_rule hinner) (by simp)
  rwa [List.append_nil] at hall

theorem ofNodes_expressions_sound (h : ∀ n ∈ ns, MeansExpr n) :
    Sound Expr.AllTidy (Expr.ofNodes ns) := by
  induction ns with
  | nil => exact trivial
  | cons n ns ih =>
    obtain ⟨⟨-, hn⟩, hns⟩ := List.forall_mem_cons.mp h
    rw [Expr.ofNodes]
    exact hn.bind fun e he => (ih hns).bind fun es hes => ⟨he, hes⟩

theorem ofNodes_declarators_sound {kind : DeclarationKind} (h : ∀ n ∈ ns, MeansDeclarator n) :
    Sound (Declarator.AllTidy kind) (Declarator.ofNodes kind ns) := by
  induction ns with
  | nil => exact trivial
  | cons n ns ih =>
    obtain ⟨⟨start, stop, name, hname, hn⟩, hns⟩ := List.forall_mem_cons.mp h
    rcases hn with rfl | ⟨init, rfl, -, hinit⟩
    · rw [Declarator.ofNodes]
      split
      · exact .fault (by simp [SyntaxCause.ofTrees]) _
      · next hkind => exact (ih hns).bind fun ds hds => ⟨hname, hkind, hds⟩
    · rw [Declarator.ofNodes]
      exact hinit.bind fun e he => (ih hns).bind fun ds hds => ⟨hname, he, hds⟩

theorem ofNodes_properties_sound (h : ∀ n ∈ ns, MeansProperty n) :
    Sound Property.AllTidy (Property.ofNodes ns) := by
  induction ns with
  | nil => exact trivial
  | cons n ns ih =>
    obtain ⟨⟨start, stop, key, hn⟩, hns⟩ := List.forall_mem_cons.mp h
    rcases hn with ⟨rfl, hkey⟩ | ⟨value, rfl, hkey, -, hvalue⟩
    · rw [Property.ofNodes]
      exact (ih hns).bind fun ps hps => ⟨hkey, hps⟩
    · rw [Property.ofNodes]
      exact hkey.bind fun k _ => hvalue.bind fun e he => (ih hns).bind fun ps hps => ⟨he, hps⟩

theorem applyNodes_sound (h : ∀ n ∈ ns, MeansApplication n) :
    ∀ e, e.Tidy → Sound Expr.Tidy (Expr.applyNodes e ns) := by
  induction ns with
  | nil => exact fun e he => he
  | cons n ns ih =>
    obtain ⟨hn, hns⟩ := List.forall_mem_cons.mp h
    exact fun e he => hn e ns he (ih hns)

/-! ### Rows -/

/-- A row of nodes that follows an operand. -/
def MeansRest (ns : List (Node Rule)) : Prop := Sound Row.Follows (RowItem.ofNodes ns)

/-- A row of nodes that begins with an operand. -/
def MeansRow (ns : List (Node Rule)) : Prop := Sound Row.Begins (RowItem.ofNodes ns)

theorem MeansRest.operand {n : Node Rule} (h : MeansRest ns) (hn : Means .postfix_ n) :
    MeansRow (n :: ns) := by
  obtain ⟨hrule, -, htree⟩ := hn
  obtain ⟨start, stop, parts, rfl⟩ := Node.exists_mk hrule
  unfold MeansRow
  rw [RowItem.ofNodes]
  exact htree.bind fun e he => h.bind fun items hitems => hitems.operand he

theorem MeansRow.before {n : Node Rule} (h : MeansRow ns) (hn : Means .prefixOp n) :
    MeansRow (n :: ns) := by
  obtain ⟨hrule, op, hop⟩ := hn
  unfold MeansRow
  rw [RowItem.ofNodes.eq_3 n ns (Node.ne_mk hrule), hop]
  exact h.bind fun items hitems => hitems.before

theorem MeansRow.between {n : Node Rule} (h : MeansRow ns) (hn : Means .infixOp n) :
    MeansRest (n :: ns) := by
  obtain ⟨hrule, hnone, op, hop⟩ := hn
  unfold MeansRest
  rw [RowItem.ofNodes.eq_3 n ns (Node.ne_mk hrule), hnone, hop]
  exact h.bind fun items hitems => hitems.between

theorem MeansRow.befores {ops : List (Node Rule)} (h : MeansRow ns)
    (hops : ∀ n ∈ ops, Means .prefixOp n) : MeansRow (ops ++ ns) := by
  induction ops with
  | nil => exact h
  | cons n ops ih =>
    obtain ⟨hn, hops⟩ := List.forall_mem_cons.mp hops
    exact (ih hops).before hn

/-- An operand with operators before it, and then what follows. -/
theorem MeansRest.group {group : List (Node Rule)} (h : MeansRest ns)
    (hgroup : (next (many (rule .prefixOp)) (rule .postfix_)).Shapes Means group) :
    MeansRow (group ++ ns) := by
  obtain ⟨ops, _, rfl, hops, n, rfl, hn⟩ := shapes_next.mp hgroup
  rw [List.append_assoc]
  exact (h.operand hn).befores (shapes_many_rule hops)

theorem meansRest_of_parts {parts : List (List (Node Rule))}
    (h : ∀ part ∈ parts, (seq (rule .infixOp) [many (rule .prefixOp), rule .postfix_]).Shapes Means
      part) : MeansRest parts.flatten := by
  induction parts with
  | nil => exact Row.Follows.nil
  | cons part parts ih =>
    obtain ⟨hpart, hparts⟩ := List.forall_mem_cons.mp h
    obtain ⟨n, group, rfl, hn, hgroup⟩ := shapes_rule_next.mp hpart
    exact ((ih hparts).group hgroup).between hn

/-! ### Expressions -/

theorem meansExpr_mk {r : Rule} (hr : r ≠ .functionBody)
    (h : Sound Expr.Tidy (Expr.ofNode (.mk r start stop ns))) : MeansExpr (.mk r start stop ns) :=
  ⟨hr, h⟩

/-- A literal that has no parts, or a name. -/
theorem meansExpr_leaf {n : Node Rule} (hrule : n.rule ∈ leafRules)
    (h : Sound Expr.Tidy (leaf n)) : MeansExpr n := by
  refine ⟨fun hbody => ?_, by rwa [ofNode_leaf hrule]⟩
  rw [hbody] at hrule
  exact absurd hrule (by decide)

/-- What a rule leaves for one word. -/
theorem meansExpr_word {r : Rule} {n : Node Rule} (hn : n.rule = r)
    (hr : r ∈ [.booleanLiteral, .nullLiteral, .undefinedLiteral, .thisExpression]) : MeansExpr n := by
  simp only [List.mem_cons, List.not_mem_nil, or_false] at hr
  rcases hr with rfl | rfl | rfl | rfl
  all_goals
    refine meansExpr_leaf (by rw [hn]; decide) ?_
    rw [leaf, hn]
    trivial

theorem meansExpr_number {n : Node Rule} (h : Means .numberLiteral n) : MeansExpr n := by
  obtain ⟨hn, x, hx⟩ := h
  refine meansExpr_leaf (by rw [hn]; decide) ?_
  rw [leaf, hn, hx]
  trivial

theorem meansExpr_text {n : Node Rule} (h : Means .stringLiteral n) : MeansExpr n := by
  obtain ⟨hn, htext⟩ := h
  refine meansExpr_leaf (by rw [hn]; decide) ?_
  rw [leaf, hn]
  exact htext.map fun _ _ => trivial

theorem meansExpr_name {n : Node Rule} (h : Means .identifier n) : MeansExpr n := by
  obtain ⟨hn, hname⟩ := h
  refine meansExpr_leaf (by rw [hn]; decide) ?_
  rw [leaf, hn]
  exact hname

theorem stringLiteral_means (h : (Rule.body .stringLiteral).Shapes Means ns) :
    Means .stringLiteral (.mk .stringLiteral start stop ns) := by
  obtain ⟨raw, rfl, -⟩ : Sole (fun _ => True) ns := by
    rcases h with h | h
    · obtain ⟨n, rfl, -⟩ := shapes_enclosed h
      exact ⟨n, rfl, trivial⟩
    · obtain ⟨n, rfl, -⟩ := shapes_enclosed h
      exact ⟨n, rfl, trivial⟩
  refine ⟨rfl, ?_⟩
  unfold literalText
  simp only [Node.children]
  split
  · exact trivial
  · exact .fault (by simp [SyntaxCause.ofTrees]) _

theorem primary_means (h : (Rule.body .primary).Shapes Means ns) : Sole (Means .primary) ns := by
  rcases h with h | h | h | h | h | h | h | h | h | h | h
  · exact h
  · exact h
  · exact h
  all_goals obtain ⟨n, rfl, hn⟩ := h
  · exact ⟨n, rfl, meansExpr_number hn⟩
  · exact ⟨n, rfl, meansExpr_text hn⟩
  · exact ⟨n, rfl, meansExpr_word hn (by decide)⟩
  · exact ⟨n, rfl, meansExpr_word hn (by decide)⟩
  · exact ⟨n, rfl, meansExpr_word hn (by decide)⟩
  · exact ⟨n, rfl, meansExpr_word hn (by decide)⟩
  · exact ⟨n, rfl, meansExpr_name hn⟩
  · exact ⟨n, rfl, hn⟩

theorem parenthesized_means (h : (Rule.body .parenthesized).Shapes Means ns) :
    Means .parenthesized (.mk .parenthesized start stop ns) := by
  obtain ⟨e, rfl, -, he⟩ := shapes_enclosed h
  refine meansExpr_mk (by decide) ?_
  rw [Expr.ofNode]
  exact he

theorem params_means {r : Rule}
    (h : (seq (lit "(") [optional (commas (rule .identifier)), lit ")"]).Shapes Means ns) :
    ∀ x ∈ paramNames (.mk r start stop ns), IsIdentifier x := by
  have hall := shapes_optional_commas (shapes_enclosed h)
  intro x hx
  obtain ⟨n, hn, rfl⟩ := List.mem_map.mp hx
  exact (hall n hn).2

theorem arrowParams_means (h : (Rule.body .arrowParams).Shapes Means ns) :
    Means .arrowParams (.mk .arrowParams start stop ns) := by
  rcases h with ⟨n, rfl, hn⟩ | h
  · intro x hx
    obtain rfl : x = n.text := List.mem_singleton.mp hx
    exact hn.2
  · exact params_means h

/-- The node of a body, and its parts. -/
theorem exists_of_functionBody {n : Node Rule} (h : Means .functionBody n) :
    ∃ start stop parts, n = .mk .functionBody start stop parts ∧
      Sound Stmt.AllTidy (Stmt.ofNodes parts) := by
  obtain ⟨hrule, hparts⟩ := h
  obtain ⟨start, stop, parts, rfl⟩ := Node.exists_mk hrule
  exact ⟨start, stop, parts, rfl, hparts⟩

theorem functionExpression_means (h : (Rule.body .functionExpression).Shapes Means ns) :
    Means .functionExpression (.mk .functionExpression start stop ns) := by
  obtain ⟨word, rest, rfl, -, h⟩ := shapes_rule_next.mp h
  obtain ⟨named, rest, rfl, hnamed, h⟩ := shapes_next.mp h
  obtain ⟨ps, rest, rfl, hps, h⟩ := shapes_rule_next.mp h
  obtain ⟨body, rfl, hbody⟩ := h
  obtain ⟨_, _, parts, rfl, hparts⟩ := exists_of_functionBody hbody
  refine meansExpr_mk (by decide) ?_
  rcases hnamed with rfl | ⟨name, rfl, -, hname⟩
  · rw [List.nil_append, Expr.ofNode]
    exact hparts.bind fun ss hss => ⟨by simp, hps, hss⟩
  · rw [List.singleton_append, Expr.ofNode]
    exact hparts.bind fun ss hss => ⟨by simpa using hname, hps, hss⟩

theorem arrowFunction_means (h : (Rule.body .arrowFunction).Shapes Means ns) :
    Means .arrowFunction (.mk .arrowFunction start stop ns) := by
  obtain ⟨ps, rest, rfl, hps, h⟩ := shapes_rule_next.mp h
  refine meansExpr_mk (by decide) ?_
  rcases shapes_lit_next.mp h with ⟨body, rfl, hbody⟩ | ⟨e, rfl, hrule, he⟩
  · obtain ⟨_, _, parts, rfl, hparts⟩ := exists_of_functionBody hbody
    rw [Expr.ofNode]
    exact hparts.bind fun ss hss => ⟨hps, hss⟩
  · rw [Expr.ofNode.eq_2 _ _ _ _ (Node.ne_mk hrule)]
    exact he.bind fun e he => ⟨hps, he⟩

theorem assignment_means (h : (Rule.body .assignment).Shapes Means ns) :
    Means .assignment (.mk .assignment start stop ns) := by
  obtain ⟨target, rest, rfl, ⟨-, -, htarget⟩, h⟩ := shapes_rule_next.mp h
  obtain ⟨op, rest, rfl, -, h⟩ := shapes_rule_next.mp h
  obtain ⟨value, rfl, -, hvalue⟩ := h
  refine meansExpr_mk (by decide) ?_
  rw [Expr.ofNode]
  refine htarget.bind fun left hleft => ?_
  split
  · exact .fault (by simp [SyntaxCause.ofTrees]) _
  · next t ht => exact hvalue.bind fun v hv => ⟨Target.tidy_of_toTarget? ht hleft, hv⟩

theorem conditional_means (h : (Rule.body .conditional).Shapes Means ns) :
    Means .conditional (.mk .conditional start stop ns) := by
  obtain ⟨test, rest, rfl, ⟨-, htest⟩, h⟩ := shapes_rule_next.mp h
  refine meansExpr_mk (by decide) ?_
  rcases h with rfl | h
  · rw [Expr.ofNode]
    exact htest
  · obtain ⟨consequent, rest, rfl, ⟨-, hc⟩, h⟩ := shapes_rule_next.mp (shapes_lit_next.mp h)
    obtain ⟨alternate, rfl, -, ha⟩ := shapes_lit_next.mp h
    rw [Expr.ofNode]
    exact htest.bind fun t ht => hc.bind fun c hc => ha.bind fun a ha => ⟨ht, hc, ha⟩

theorem binary_means (h : (Rule.body .binary).Shapes Means ns) :
    Means .binary (.mk .binary start stop ns) := by
  obtain ⟨ops, rest, rfl, hops, h⟩ := shapes_next.mp h
  obtain ⟨n, rest, rfl, hn, h⟩ := shapes_rule_next.mp h
  obtain ⟨parts, rfl, hparts⟩ := shapes_many h
  -- operators and operands alternate, which is all that grouping them needs
  have hrow : MeansRow (ops ++ n :: parts.flatten) :=
    ((meansRest_of_parts hparts).operand hn).befores (shapes_many_rule hops)
  refine meansExpr_mk (by decide) ?_
  rw [Expr.ofNode]
  refine hrow.bind fun items hitems => ?_
  obtain ⟨e, he, htidy⟩ := hitems.exists_toExpr
  rw [he]
  exact htidy

theorem postfix_means (h : (Rule.body .postfix_).Shapes Means ns) :
    Means .postfix_ (.mk .postfix_ start stop ns) := by
  obtain ⟨first, ops, rfl, ⟨-, hfirst⟩, h⟩ := shapes_rule_next.mp h
  refine ⟨rfl, meansExpr_mk (by decide) ?_⟩
  rw [Expr.ofNode]
  exact hfirst.bind fun e he => applyNodes_sound (shapes_many_rule h) e he

theorem callArguments_means (h : (Rule.body .callArguments).Shapes Means ns) :
    Means .callArguments (.mk .callArguments start stop ns) := by
  have hall := shapes_optional_commas (shapes_enclosed h)
  intro e rest he hrest
  rw [Expr.applyNodes]
  exact (ofNodes_expressions_sound hall).bind fun args hargs => hrest _ ⟨he, hargs⟩

theorem memberDot_means (h : (Rule.body .memberDot).Shapes Means ns) :
    Means .memberDot (.mk .memberDot start stop ns) := by
  obtain ⟨key, rfl, -⟩ := shapes_lit_next.mp h
  intro e rest he hrest
  rw [Expr.applyNodes]
  exact hrest _ he

theorem memberIndex_means (h : (Rule.body .memberIndex).Shapes Means ns) :
    Means .memberIndex (.mk .memberIndex start stop ns) := by
  obtain ⟨key, rfl, -, hkey⟩ := shapes_enclosed h
  intro e rest he hrest
  rw [Expr.applyNodes]
  exact hkey.bind fun k hk => hrest _ ⟨he, hk⟩

theorem arrayLiteral_means (h : (Rule.body .arrayLiteral).Shapes Means ns) :
    Means .arrayLiteral (.mk .arrayLiteral start stop ns) := by
  have hall := shapes_optional_list (shapes_enclosed h)
  refine meansExpr_mk (by decide) ?_
  rw [Expr.ofNode]
  exact (ofNodes_expressions_sound hall).bind fun es hes => hes

theorem objectLiteral_means (h : (Rule.body .objectLiteral).Shapes Means ns) :
    Means .objectLiteral (.mk .objectLiteral start stop ns) := by
  have hall := shapes_optional_list (shapes_enclosed h)
  refine meansExpr_mk (by decide) ?_
  rw [Expr.ofNode]
  exact (ofNodes_properties_sound hall).bind fun ps hps => hps

/-- The key of a property is a name, a text or a number. -/
theorem keyText_sound
    (h : (first (rule .identifierName) [rule .stringLiteral, rule .numberLiteral]).Shapes Means ns) :
    Sole (fun key => Sound (fun _ => True) (keyText key)) ns := by
  have hplain : ∀ {n : Node Rule}, n.rule ≠ .stringLiteral → Sound (fun _ => True) (keyText n) := by
    intro n hn
    rw [keyText, if_neg hn]
    trivial
  -- only the text of a string can have a bad escape
  rcases h with ⟨n, rfl, hn⟩ | ⟨n, rfl, hn, htext⟩ | ⟨n, rfl, hn, -⟩
  · exact ⟨n, rfl, hplain (by rw [show n.rule = _ from hn]; decide)⟩
  · refine ⟨n, rfl, ?_⟩
    show Sound _ (keyText n)
    rwa [keyText, if_pos hn]
  · exact ⟨n, rfl, hplain (by rw [hn]; decide)⟩

theorem property_means (h : (Rule.body .property).Shapes Means ns) :
    Means .property (.mk .property start stop ns) := by
  rcases h with h | ⟨name, rfl, -, hname⟩
  · obtain ⟨_, _, rfl, hfirst, hsecond⟩ := shapes_next.mp h
    obtain ⟨key, rfl, hkey⟩ := keyText_sound hfirst
    obtain ⟨value, rfl, hvalue⟩ := shapes_lit_next.mp hsecond
    exact ⟨start, stop, key, .inr ⟨value, rfl, hkey, hvalue⟩⟩
  · exact ⟨start, stop, name, .inl ⟨rfl, hname⟩⟩

theorem prefixOp_means (h : (Rule.body .prefixOp).Shapes Means ns) : Sole (Means .prefixOp) ns := by
  rcases h with h | h | h
  all_goals
    obtain ⟨n, rfl, hn⟩ := h
    have hn : n.rule = _ := hn
    exact ⟨n, rfl, by rw [hn]; decide, by rw [hn]; exact ⟨_, rfl⟩⟩

theorem infixOp_means (h : (Rule.body .infixOp).Shapes Means ns) : Sole (Means .infixOp) ns := by
  rcases h with h | h | h | h | h | h | h | h | h | h | h | h | h | h | h
  all_goals
    obtain ⟨n, rfl, hn⟩ := h
    have hn : n.rule = _ := hn
    exact ⟨n, rfl, by rw [hn]; decide, by rw [hn]; rfl, by rw [hn]; exact ⟨_, rfl⟩⟩

/-! ### Statements -/

theorem meansStmt_mk {r : Rule} (hr : r ≠ .endOfInput)
    (h : Sound Stmt.Tidy (Stmt.ofNode (.mk r start stop ns))) : MeansStmt (.mk r start stop ns) :=
  ⟨hr, h⟩

theorem expressionStatement_means (h : (Rule.body .expressionStatement).Shapes Means ns) :
    Means .expressionStatement (.mk .expressionStatement start stop ns) := by
  obtain ⟨e, rfl, -, he⟩ := shapes_terminated h
  refine meansStmt_mk (by decide) ?_
  rw [Stmt.ofNode]
  exact he.bind fun e he => he

theorem variableDeclaration_means (h : (Rule.body .variableDeclaration).Shapes Means ns) :
    Means .variableDeclaration (.mk .variableDeclaration start stop ns) := by
  obtain ⟨name, rest, rfl, ⟨-, hname⟩, h⟩ := shapes_rule_next.mp h
  rcases h with rfl | h
  · exact ⟨start, stop, name, hname, .inl rfl⟩
  · obtain ⟨init, rfl, hinit⟩ := shapes_lit_next.mp h
    exact ⟨start, stop, name, hname, .inr ⟨init, rfl, hinit⟩⟩

theorem variableStatement_means (h : (Rule.body .variableStatement).Shapes Means ns) :
    Means .variableStatement (.mk .variableStatement start stop ns) := by
  obtain ⟨kind, rest, rfl, -, h⟩ := shapes_rule_next.mp h
  obtain ⟨first, rest, rfl, hfirst, h⟩ := shapes_rule_next.mp h
  have hrest := shapes_many_behind (shapes_terminated h)
  refine meansStmt_mk (by decide) ?_
  rw [Stmt.ofNode]
  exact (ofNodes_declarators_sound (List.forall_mem_cons.mpr ⟨hfirst, hrest⟩)).bind fun ds hds => hds

theorem functionDeclaration_means (h : (Rule.body .functionDeclaration).Shapes Means ns) :
    Means .functionDeclaration (.mk .functionDeclaration start stop ns) := by
  obtain ⟨word, rest, rfl, -, h⟩ := shapes_rule_next.mp h
  obtain ⟨name, rest, rfl, ⟨-, hname⟩, h⟩ := shapes_rule_next.mp h
  obtain ⟨ps, rest, rfl, hps, h⟩ := shapes_rule_next.mp h
  obtain ⟨body, rfl, hbody⟩ := h
  obtain ⟨_, _, parts, rfl, hparts⟩ := exists_of_functionBody hbody
  refine meansStmt_mk (by decide) ?_
  rw [Stmt.ofNode]
  exact hparts.bind fun ss hss => ⟨hname, hps, hss⟩

theorem returnStatement_means (h : (Rule.body .returnStatement).Shapes Means ns) :
    Means .returnStatement (.mk .returnStatement start stop ns) := by
  obtain ⟨word, rest, rfl, -, h⟩ := shapes_rule_next.mp h
  refine meansStmt_mk (by decide) ?_
  rcases shapes_terminated h with rfl | ⟨e, rfl, -, he⟩
  · rw [Stmt.ofNode]
    exact trivial
  · rw [Stmt.ofNode]
    exact he.bind fun e he => he

theorem ifStatement_means (h : (Rule.body .ifStatement).Shapes Means ns) :
    Means .ifStatement (.mk .ifStatement start stop ns) := by
  obtain ⟨word, rest, rfl, -, h⟩ := shapes_rule_next.mp h
  obtain ⟨test, rest, rfl, ⟨-, htest⟩, h⟩ := shapes_rule_next.mp (shapes_lit_next.mp h)
  obtain ⟨consequent, rest, rfl, ⟨-, hc⟩, h⟩ := shapes_rule_next.mp (shapes_lit_next.mp h)
  refine meansStmt_mk (by decide) ?_
  rcases h with rfl | h
  · rw [Stmt.ofNode]
    exact htest.bind fun t ht => hc.bind fun c hc => ⟨ht, hc⟩
  · obtain ⟨otherwise, rest, rfl, -, h⟩ := shapes_rule_next.mp h
    obtain ⟨alternate, rfl, -, ha⟩ := h
    rw [Stmt.ofNode]
    exact htest.bind fun t ht => hc.bind fun c hc => ha.bind fun a ha => ⟨ht, hc, ha⟩

theorem throwStatement_means (h : (Rule.body .throwStatement).Shapes Means ns) :
    Means .throwStatement (.mk .throwStatement start stop ns) := by
  obtain ⟨word, rest, rfl, -, h⟩ := shapes_rule_next.mp h
  obtain ⟨e, rfl, -, he⟩ := shapes_terminated h
  refine meansStmt_mk (by decide) ?_
  rw [Stmt.ofNode]
  exact he.bind fun e he => he

theorem block_means (h : (Rule.body .block).Shapes Means ns) :
    Means .block (.mk .block start stop ns) := by
  refine meansStmt_mk (by decide) ?_
  rw [Stmt.ofNode]
  exact (ofNodes_braces_sound h).bind fun ss hss => hss

theorem script_body_means (h : (Rule.body .script).Shapes Means ns) :
    Means .script (.mk .script start stop ns) := by
  obtain ⟨_, _, rfl, rfl, h⟩ := h
  obtain ⟨statements, last, rfl, hstatements, hlast⟩ := shapes_next.mp h
  exact ofNodes_statements_sound (shapes_many_rule hstatements) (shapes_rule_all hlast)

/-! ### All rules -/

/-- **Every node that the grammar leaves has the tree that its rule says.** -/
theorem script_means : Grammar.script.Law Means where
  -- a silent rule leaves the nodes of its alternative, of which each has been read already
  silent {r ns} hmode h := by
    cases r with
    | statement => rcases h with h | h | h | h | h | h | h | h <;> exact h
    | expression => rcases h with h | h | h <;> exact h
    | prefixOp => exact prefixOp_means h
    | infixOp => exact infixOp_means h
    | postfixOp => rcases h with h | h | h <;> exact h
    | primary => exact primary_means h
    | _ => cases hmode
  token {r c c' ns} hmode h := by
    cases r with
    | identifier => exact ⟨rfl, Grammar.identifier_isIdentifier h⟩
    | numberLiteral => exact ⟨rfl, Grammar.number_readable h⟩
    | keyword | identifierName | varKind | kwFunction | kwReturn | kwIf | kwElse | kwThrow
    | booleanLiteral | nullLiteral | undefinedLiteral | thisExpression | doubleQuoted | singleQuoted
    | assignOp | typeofOp | add | sub => rfl
    | _ => cases hmode
  node {r start stop ns} hsilent htoken h := by
    cases r with
    | script => exact script_body_means h
    | stringLiteral => exact stringLiteral_means h
    | functionDeclaration => exact functionDeclaration_means h
    | variableStatement => exact variableStatement_means h
    | variableDeclaration => exact variableDeclaration_means h
    | returnStatement => exact returnStatement_means h
    | ifStatement => exact ifStatement_means h
    | throwStatement => exact throwStatement_means h
    | block => exact block_means h
    | emptyStatement => exact meansStmt_mk (by decide) trivial
    | expressionStatement => exact expressionStatement_means h
    | params => exact params_means h
    | functionBody => exact ⟨rfl, ofNodes_braces_sound h⟩
    | arrowFunction => exact arrowFunction_means h
    | arrowParams => exact arrowParams_means h
    | assignment => exact assignment_means h
    | conditional => exact conditional_means h
    | binary => exact binary_means h
    | postfix_ => exact postfix_means h
    | callArguments => exact callArguments_means h
    | memberDot => exact memberDot_means h
    | memberIndex => exact memberIndex_means h
    | functionExpression => exact functionExpression_means h
    | arrayLiteral => exact arrayLiteral_means h
    | objectLiteral => exact objectLiteral_means h
    | property => exact property_means h
    | parenthesized => exact parenthesized_means h
    | endOfInput | not | neg | or | and | strictEq | strictNe | eq | ne | le | ge | lt | gt | mul | div
    | rem => rfl
    | statement | expression | prefixOp | infixOp | postfixOp | primary => exact absurd rfl hsilent
    | _ => exact absurd rfl htoken

end

/-! ### Texts -/

/-- **Whether the grammar accepts a text.** -/
def isAccepted (s : String) : Bool :=
  match (matchScript s.toList).1 with
  | .matched .. => true
  | _ => false

/-- What is built from a text that is accepted is tidy, or has one of the three faults. -/
theorem sound_of_accepted {s : String} {r : Except SyntaxFault Program} (hs : isAccepted s = true)
    (hr : Program.parse s = r) : Sound Program.Tidy r := by
  unfold isAccepted at hs
  unfold Program.parse at hr
  rcases hm : matchScript s.toList with ⟨_ | _ | _, a⟩
  case matched c ns =>
    have hcomes : Grammar.script.Comes .loose (.rule .script) (Cursor.start s.toList) (some (c, ns)) :=
      matched_iff_comes.mp (congrArg Prod.fst hm)
    -- the grammar leaves one node for the whole text
    obtain ⟨n, hn, hmeans⟩ : Sole (Means .script) ns := script_means.shapes hcomes (by decide)
    rw [hm, hn] at hr
    obtain rfl : (Stmt.ofNodes n.children).map (⟨·⟩) = r := hr
    exact hmeans.map fun _ hss => hss
  all_goals
    rw [hm] at hs
    cases hs

/-- What the grammar refuses is unexpected. -/
theorem unexpected_of_refused {s : String} (hs : isAccepted s = false) :
    ∃ rules o, Program.parse s = .error ⟨.unexpected rules, o⟩ := by
  have hends : (matchScript s.toList).1 ≠ .exhausted := matching_ends .script s.toList
  unfold isAccepted at hs
  unfold Program.parse
  rcases hm : matchScript s.toList with ⟨_ | _ | _, a⟩
  case failed => exact ⟨_, _, rfl⟩
  case matched c ns =>
    rw [hm] at hs
    cases hs
  case exhausted =>
    rw [hm] at hends
    exact absurd rfl hends

/-- The tree of a text is tidy. -/
theorem Program.tidy_of_parse {s : String} {p : Program} (hp : Program.parse s = .ok p) :
    p.Tidy := by
  cases hs : isAccepted s with
  | true => exact sound_of_accepted hs hp
  | false =>
    obtain ⟨rules, o, he⟩ := unexpected_of_refused hs
    rw [hp] at he
    cases he

theorem Program.tidy_of_compile {script text : String} {p : Program}
    (hp : Program.compile script text = .ok p) : p.Tidy := by
  unfold compile at hp
  cases hparse : Program.parse text with
  | ok q =>
    rw [hparse] at hp
    cases hp
    exact tidy_of_parse hparse
  | error fault =>
    rw [hparse] at hp
    cases hp

/-- Why a text is no script. -/
def Program.cause? (s : String) : Option SyntaxCause :=
  match Program.parse s with
  | .ok _ => none
  | .error f => some f.cause

theorem Program.cause?_eq_some {s : String} {cause : SyntaxCause} :
    cause? s = some cause ↔ ∃ f, Program.parse s = .error f ∧ f.cause = cause := by
  unfold cause?
  cases Program.parse s with
  | ok p => simp
  | error f => simp

/-- That something is no script is raised by the host's functions only. -/
theorem raising_narration : Narration
    (fun ms o => ∀ t, o = some (.badSyntax t) → ∃ h : HostFunction, h.fails = some (.badSyntax t) ∧
      .call (.raised (.host h) (.badSyntax t)) ∈ ms)
    fun _ _ => True where
  script :=
    { done := nofun
      own := fun he t ht => by
        obtain rfl := Option.some.inj ht
        exact absurd he not_false
      seq := fun _ h t ht => by
        obtain ⟨f, hf, hmem⟩ := h t ht
        exact ⟨f, hf, List.mem_append_right _ hmem⟩ }
  host := ⟨trivial, fun _ => trivial, fun _ _ => trivial⟩
  call _ h t ht := by
    obtain ⟨f, hf, hmem⟩ := h t ht
    exact ⟨f, hf, List.mem_cons_of_mem _ (List.mem_append_left _ hmem)⟩
  noticed h t ht := by
    obtain ⟨f, hf, hmem⟩ := h t ht
    exact ⟨f, hf, List.mem_append_left _ hmem⟩
  thrown {h e} hfails t ht := by
    obtain rfl := Option.some.inj ht
    exact ⟨h, hfails, List.mem_singleton_self _⟩
  raised _ h t ht := by
    obtain ⟨f, hf, hmem⟩ := h t ht
    exact ⟨f, hf, List.mem_append_left _ hmem⟩
  hosted {ms o} _ t ht := by
    obtain ⟨e, -, he⟩ := Option.map_eq_some_iff.mp ht
    cases he
  supplied := trivial
  reports _ _ _ _ := trivial
  passes _ _ _ := trivial
  inName _ _ := trivial
  unread := trivial
  acting _ _ := trivial

/-- **The grammar and the trees agree.** A text that the grammar accepts is a tidy program, or it has
one of three faults: a constant without an initial value, an assignment to something else than a variable
or a member, or a bad escape. Each of the three occurs, and none that would mean that the nodes of a match
have no tree. A text that the grammar refuses is unexpected at some place.

A program that was parsed has an identifier wherever a name stands, and no keyword. While it is evaluated,
nothing is found to be no script, unless a function of the host says so. -/
theorem Program.parse_agrees :
    (∀ s : String,
      (isAccepted s = true → (∃ p, Program.parse s = .ok p) ∨
        ∃ f, Program.parse s = .error f ∧ f.cause ∈ SyntaxCause.ofTrees) ∧
      (isAccepted s = false → ∃ rules o, Program.parse s = .error ⟨.unexpected rules, o⟩) ∧
      ∀ p, Program.parse s = .ok p → p.Tidy) ∧
    (∀ cause ∈ SyntaxCause.ofTrees, ∃ s f, Program.parse s = .error f ∧ f.cause = cause) ∧
    ∀ (p : Program) (n : Nat) (b : Bindings) (w w' : World) (t : String),
      p.evaluate (Machine.ofFuel n).call b w = (.failed (.badSyntax t), w') →
        ∃ ms : List Moment, w'.history = ms.reverse ++ w.history ∧
          ∃ h : HostFunction, h.fails = some (.badSyntax t) ∧
            .call (.raised (.host h) (.badSyntax t)) ∈ ms := by
  refine ⟨fun s => ⟨fun hs => ?_, unexpected_of_refused, fun p hp => ?_⟩, ?_,
    fun p n b w w' t h => ?_⟩
  · cases hparse : Program.parse s with
    | ok p => exact .inl ⟨p, rfl⟩
    | error f => exact .inr ⟨f, rfl, sound_of_accepted hs hparse⟩
  · cases hs : isAccepted s with
    | true => exact sound_of_accepted hs hp
    | false =>
      obtain ⟨rules, o, he⟩ := unexpected_of_refused hs
      rw [hp] at he
      cases he
  · intro cause hcause
    simp only [SyntaxCause.ofTrees, List.mem_cons, List.not_mem_nil, or_false] at hcause
    rcases hcause with rfl | rfl | rfl
    · exact ⟨"const x;", cause?_eq_some.mp (by decide +kernel)⟩
    · exact ⟨"1 = 2;", cause?_eq_some.mp (by decide +kernel)⟩
    · exact ⟨"'\\u00';", cause?_eq_some.mp (by decide +kernel)⟩
  · have htells := raising_narration.evaluate (Machine.ofFuel_tells raising_narration n) p b
    obtain ⟨ms, hms, hraised⟩ := htells w (.error (.badSyntax t)) w' h
    exact ⟨ms, hms, hraised t rfl⟩

/-- A program that is accepted, a word that is refused, and a program that calls a function of the host
which says that something is no script. -/
theorem Program.parse_agrees_for_texts :
    (∃ p, Program.parse "const one = (x) => x.if; one(1);" = .ok p ∧ p.Tidy) ∧
    (∃ rules o, Program.parse "if" = .error ⟨.unexpected rules, o⟩) ∧
    ∃ (w' : World) (ms : List Moment),
      (Program.mk [.expression (.call (.name "check") [])]).evaluate (Machine.ofFuel 3).call
        { entries := .ofList [("check", .value (.function ⟨0⟩))] }
        { functions := ⟨#[.host ⟨"check", some (.badSyntax "no"), none⟩]⟩ } =
          (.failed (.badSyntax "no"), w') ∧
      w'.history = ms.reverse ++ [] ∧ ∃ h : HostFunction, h.fails = some (.badSyntax "no") ∧
        .call (.raised (.host h) (.badSyntax "no")) ∈ ms := by
  obtain ⟨law, -, evaluation⟩ := Program.parse_agrees
  refine ⟨?_, (law "if").2.1 (by decide +kernel), ?_⟩
  · obtain ⟨haccepted, -, htidy⟩ := law "const one = (x) => x.if; one(1);"
    have hnone : cause? "const one = (x) => x.if; one(1);" = none := by decide +kernel
    rcases haccepted (by decide +kernel) with ⟨p, hp⟩ | ⟨f, hf, -⟩
    · exact ⟨p, hp, htidy p hp⟩
    · cases hnone.symm.trans (cause?_eq_some.mpr ⟨f, hf, rfl⟩)
  · have hfails : ((Program.mk [.expression (.call (.name "check") [])]).evaluate
        (Machine.ofFuel 3).call { entries := .ofList [("check", .value (.function ⟨0⟩))] }
        { functions := ⟨#[.host ⟨"check", some (.badSyntax "no"), none⟩]⟩ }).1.error? =
          some (.badSyntax "no") := by decide +kernel
    rcases hrun : (Program.mk [.expression (.call (.name "check") [])]).evaluate
        (Machine.ofFuel 3).call { entries := .ofList [("check", .value (.function ⟨0⟩))] }
        { functions := ⟨#[.host ⟨"check", some (.badSyntax "no"), none⟩]⟩ } with ⟨o, w'⟩
    rw [hrun] at hfails
    obtain rfl := Outcome.eq_failed hfails
    obtain ⟨ms, hms, hraised⟩ := evaluation _ _ _ _ _ _ hrun
    exact ⟨w', ms, rfl, hms, hraised⟩

end ScriptModules
