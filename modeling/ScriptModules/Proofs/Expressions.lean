import ScriptModules.Proofs.Phrases

/-!
# Reading expressions back

An expression is `Readable` if the grammar reads its tokens as one node, up to a sign that ends
expressions, and the node builds the expression. There is one lemma for each kind of expression,
which takes the parts to be readable.

Three things have to fail before an operand is read as one: an arrow function, an assignment, and an
operator before the operand. An operand in parentheses looks like the parameters of an arrow
function up to the closing parenthesis; what stands behind it decides (`wrapped_not_arrow`).
-/

namespace ScriptModules

open Grammar Grammar.RuleSet Token

/-- **The expression is read back** before a sign that ends it. -/
def Readable (σ : Style) (e : Expr) : Prop :=
  ∀ s m, Laid (e.tokens σ) s m → Ends m → script.Reads (.rule .expression) s m (Sole (ExprNode e))

variable {σ : Style} {e : Expr} {s k m : List Char}

-- what an expression is built from and what it is written as: every proof below unfolds one of them
attribute [local simp] Expr.ofNode Expr.tokens

/-! ### Alternatives -/

/-- What an operand may begin with, in the order in which it is tried. -/
def primaryRules : List Rule := [.arrayLiteral, .objectLiteral, .numberLiteral, .stringLiteral,
  .booleanLiteral, .nullLiteral, .undefinedLiteral, .thisExpression, .identifier, .parenthesized]

theorem Looks.primary {n : Next} {r : Rule} {P : List (Node Rule) → Prop} (h : Looks n s)
    (hread : script.Reads (.rule r) s m P) (hr : r ∈ .functionExpression :: primaryRules)
    (hbefore : ((.functionExpression :: primaryRules).takeWhile (· ≠ r)).all n.excludes = true) :
    script.Reads (.rule .primary) s m P :=
  have hfirst : script.Reads (.first (.rule .functionExpression) (primaryRules.map .rule)) s m P :=
    h.first hread hr hbefore
  .silent rfl hfirst

/-! ### Operands -/

/-- An operand without anything behind it. -/
theorem operand_of_primary (h : script.Reads (.rule .primary) s m (Sole (TreeNode e)))
    (haccess : script.Fails (.rule .postfixOp) m) (hm : Solid m) :
    script.Reads (.rule .postfix_) s m (Sole (OperandNode e)) := by
  have hnone : script.ReadsEach (.rule .postfixOp) (fun (_ : Empty) _ => True) [] m m :=
    ⟨rfl, haccess⟩
  refine (Reads.rule rfl (h.next (hnone.many hm))).mono ?_
  rintro _ ⟨_, rfl, start, stop, _, rfl, _, _, rfl, ⟨n, rfl, hn⟩, ⟨⟩⟩
  refine ⟨_, rfl, rfl, ?_⟩
  have hn : Expr.ofNode n = .ok e := hn
  simp [hn, Expr.applyNodes]

/-- An operand with a call or a member behind it. -/
theorem operand_of_access {e' : Expr} (h : script.Reads (.rule .primary) s k (Sole (TreeNode e)))
    (hop : script.Reads (.rule .postfixOp) k m (Sole fun n => Expr.applyNodes e [n] = .ok e'))
    (haccess : script.Fails (.rule .postfixOp) m) (hk : Solid k) :
    script.Reads (.rule .postfix_) s m (Sole (OperandNode e')) := by
  have hone : script.ReadsEach (.rule .postfixOp)
      (fun (_ : Unit) n => Expr.applyNodes e [n] = .ok e') [()] k m := ⟨m, hop, rfl, haccess⟩
  refine (Reads.rule rfl (h.next (hone.many hk))).mono ?_
  rintro _ ⟨_, rfl, start, stop, _, rfl, _, _, rfl, ⟨n, rfl, hn⟩, hops⟩
  cases hops with
  | cons hop hnil =>
    cases hnil
    refine ⟨_, rfl, rfl, ?_⟩
    have hn : Expr.ofNode n = .ok e := hn
    simp [hn, hop]

/-- A row of one operand. -/
theorem row_of_operand {n : Node Rule} (h : OperandNode e n) :
    RowItem.ofNodes [n] = .ok [.operand e] := by
  obtain ⟨hrule, he⟩ := h
  obtain ⟨r, start, stop, parts⟩ := n
  obtain rfl : r = .postfix_ := hrule
  simp [RowItem.ofNodes, he]

/-- A row of one operand is that operand. -/
theorem binary_of_operand (h : script.Reads (.rule .postfix_) s m (Sole (OperandNode e)))
    (hbare : script.Fails (.rule .prefixOp) s) (hs : Solid s)
    (hoperator : script.Fails (.rule .infixOp) m) (hm : Solid m) :
    script.Reads (.rule .binary) s m (Sole (TreeNode e)) := by
  refine (Reads.rule rfl ((hbare.many hs).next (h.next (hoperator.next.many hm)))).mono ?_
  rintro _ ⟨_, rfl, start, stop, _, rfl, _, _, rfl, rfl, _, _, rfl, ⟨n, rfl, hn⟩, rfl⟩
  refine ⟨_, rfl, ?_⟩
  rw [List.nil_append, List.append_nil, TreeNode, Expr.ofNode, row_of_operand hn]
  rfl

theorem conditional_of_binary (h : script.Reads (.rule .binary) s m (Sole (TreeNode e)))
    (hquestion : script.Fails (.lit "?") m) (hm : Solid m) :
    script.Reads (.rule .conditional) s m (Sole (ExprNode e)) := by
  refine (Reads.rule rfl (h.next (hquestion.next.optional hm))).mono ?_
  rintro _ ⟨_, rfl, start, stop, _, rfl, _, _, rfl, ⟨n, rfl, hn⟩, rfl⟩
  refine ⟨_, rfl, by simp [Node.rule], ?_⟩
  rw [List.append_nil, Expr.ofNode]
  exact hn

theorem expression_of_conditional {P : List (Node Rule) → Prop}
    (harrow : script.Fails (.rule .arrowFunction) s) (hassign : script.Fails (.rule .assignment) s)
    (h : script.Reads (.rule .conditional) s m P) : script.Reads (.rule .expression) s m P :=
  .silent rfl (.altSecond harrow (.altSecond hassign h))

/-- **An operand is an expression** if nothing goes on with it. -/
theorem expression_of_operand (h : script.Reads (.rule .postfix_) s m (Sole (OperandNode e)))
    (hbare : script.Fails (.rule .prefixOp) s) (harrow : script.Fails (.rule .arrowFunction) s)
    (hs : Solid s) (hm : Ends m) : script.Reads (.rule .expression) s m (Sole (ExprNode e)) :=
  expression_of_conditional harrow (.rule rfl (h.next_fails hm.assign.next))
    (conditional_of_binary (binary_of_operand h hbare hs hm.operator hm.solid) hm.question
      hm.solid)

/-! ### Parentheses -/

/-- **An expression in parentheses is an operand,** whatever stands behind it. -/
theorem primary_of_wrapped (he : Readable σ e) (h : Laid (wrap (e.tokens σ)) s m) :
    script.Reads (.rule .primary) s m (Sole (TreeNode e)) := by
  obtain ⟨k₁, hopen, hrest⟩ := h.uncons
  obtain ⟨k₂, hinner, hclose⟩ := hrest.split
  have hexpression := he k₁ k₂ hinner (hclose.ends (by decide))
  have hparts : script.Reads (script.body .parenthesized) s m _ :=
    hopen.lit_reads.next (hexpression.next hclose.lit_reads)
  refine (h.sign_looks.primary (.rule rfl hparts) (by decide) (by decide)).mono ?_
  rintro _ ⟨_, rfl, start, stop, _, rfl, _, _, rfl, rfl, _, _, rfl, ⟨n, rfl, hn⟩, rfl⟩
  refine ⟨_, rfl, ?_⟩
  have hn : Expr.ofNode n = .ok e := hn.2
  simp [TreeNode, hn]

/-- The first token of an expression is no identifier, unless the expression is one or assigns to
one that stands without parentheses. -/
theorem first_token (h : Laid (e.tokens σ) s m) :
    (∃ x, e = .name x) ∨ (∃ op x value, e = .assign op (.name x) value ∧ σ.wrapsTargets = false) ∨
      (script.Fails (.rule .identifier) s ∧ script.Fails (.lit ")") s) := by
  -- what a text looks like at its beginning decides, and most expressions begin with a parenthesis
  have hlooks : ∀ {n}, Looks n s →
      (n.excludes .identifier && n.lacksSign .closeParen) = true →
      script.Fails (.rule .identifier) s ∧ script.Fails (.lit ")") s := by
    intro n h hn
    obtain ⟨hname, hclose⟩ := Bool.and_eq_true_iff.1 hn
    exact ⟨h.not hname, h.not_sign .closeParen hclose⟩
  have hwrapped : ∀ {ts us}, Laid (wrap ts ++ us) s m →
      script.Fails (.rule .identifier) s ∧ script.Fails (.lit ")") s :=
    fun h => hlooks (Laid.sign_looks h) (by decide)
  cases e with
  | literal l =>
    cases l with
    | number x => exact .inr (.inr (hlooks h.number_looks (by decide)))
    | text x => exact .inr (.inr (hlooks h.text_looks (by decide)))
    | boolean b => cases b <;> exact .inr (.inr (hlooks h.sign_looks (by decide)))
    | undefined | null => exact .inr (.inr (hlooks h.sign_looks (by decide)))
  | name x => exact .inl ⟨x, rfl⟩
  | assign op t value =>
    cases hwraps : σ.wrapsTargets with
    | true =>
      rw [Expr.tokens, hwraps] at h
      exact .inr (.inr (hwrapped h))
    | false =>
      rw [Expr.tokens, hwraps] at h
      cases t with
      | name x => exact .inr (.inl ⟨op, x, value, rfl, rfl⟩)
      | member o k | index o k => exact .inr (.inr (hlooks (Laid.sign_looks h) (by decide)))
  | unary op e => cases op <;> exact .inr (.inr (hlooks h.sign_looks (by decide)))
  | function name ps body =>
    cases name <;> exact .inr (.inr (hlooks h.sign_looks (by decide)))
  | this | list | object => exact .inr (.inr (hlooks h.sign_looks (by decide)))
  | arrow | binary | logical | conditional | member | index | call =>
    exact .inr (.inr (hwrapped h))

/-- Parentheses around an expression are no parameters of an arrow function, unless they are
followed by an arrow. -/
theorem wrapped_not_arrow (h : Laid (wrap (e.tokens σ)) s m) (hm : script.Fails (.lit "=>") m) :
    script.Fails (.rule .arrowFunction) s := by
  have hname : script.Fails (.rule .identifier) s := h.sign_looks.not (by decide)
  obtain ⟨k₁, hopen, hrest⟩ := h.uncons
  obtain ⟨k₂, hinner, hclose⟩ := hrest.split
  -- without a list of names before it there is no closing parenthesis
  have hunclosed : ∀ {k P}, script.Reads (.optional (.commas (.rule .identifier))) k₁ k P →
      script.Fails (.lit ")") k → script.Fails (.rule .arrowFunction) s := fun hlist hk =>
    .rule rfl (.next (.rule rfl (.alt hname (hopen.lit_reads.next_fails (hlist.next_fails hk)))))
  rcases first_token hinner with ⟨x, rfl⟩ | ⟨op, x, value, rfl, hwraps⟩ | ⟨hfirst, hclose'⟩
  · have hparams : Laid (params [x]) s m := h
    have hread : script.Reads (.rule .arrowParams) s m _ :=
      .rule rfl (.altSecond hname (params_read hparams))
    exact .rule rfl (hread.next_fails hm.next)
  · rw [Expr.tokens, hwraps] at hinner
    obtain ⟨k, hx, hassign⟩ := Laid.uncons hinner
    have hcomma : script.Fails (.lit ",") k := by
      cases op <;> exact hassign.sign_looks.not_sign .comma (by decide)
    refine hunclosed (hx.name_reads.next (hcomma.next.many hassign.solid)).optional ?_
    cases op <;> exact hassign.sign_looks.not_sign .closeParen (by decide)
  · exact hunclosed (hfirst.next.optional hinner.solid) hclose'

/-- An expression in parentheses as an operand. -/
theorem operand_of_wrapped (he : Readable σ e) (h : Laid (wrap (e.tokens σ)) s m)
    (haccess : script.Fails (.rule .postfixOp) m) :
    script.Reads (.rule .postfix_) s m (Sole (OperandNode e)) :=
  operand_of_primary (primary_of_wrapped he h) haccess h.solid_end

/-- **An expression in parentheses is read back.** -/
theorem expression_of_wrapped (he : Readable σ e) (h : Laid (wrap (e.tokens σ)) s m)
    (hm : Ends m) : script.Reads (.rule .expression) s m (Sole (ExprNode e)) :=
  expression_of_operand (operand_of_wrapped he h hm.access)
    (h.sign_looks.not (by decide)) (wrapped_not_arrow h hm.arrow) h.solid hm

/-! ### Expressions of one token -/

/-- What begins with such a token is an operand. -/
theorem expression_of_token {n : Next} (hlooks : Looks n s)
    (h : script.Reads (.rule .primary) s m (Sole (TreeNode e)))
    (hn : (n.excludes .prefixOp && n.excludes .arrowFunction) = true)
    (hs : Solid s) (hm : Ends m) : script.Reads (.rule .expression) s m (Sole (ExprNode e)) := by
  obtain ⟨hbare, harrow⟩ := Bool.and_eq_true_iff.1 hn
  exact expression_of_operand (operand_of_primary h hm.access hm.solid) (hlooks.not hbare)
    (hlooks.not harrow) hs hm

/-- Rules whose nodes have no parts that are expressions. -/
def leafRules : List Rule := [.numberLiteral, .stringLiteral, .booleanLiteral, .nullLiteral,
  .undefinedLiteral, .thisExpression, .identifier]

theorem ofNode_leaf {n : Node Rule} (h : n.rule ∈ leafRules) : Expr.ofNode n = leaf n := by
  obtain ⟨r, start, stop, parts⟩ := n
  cases r <;> first
    | rfl
    | exact absurd h (by simp [Node.rule, leafRules])

/-- An expression of one word. -/
theorem readable_word {w : Sign} {r : Rule} (htokens : e.tokens σ = [.sign w])
    (haccepts : (r, w) ∈ acceptances) (hr : r ∈ .functionExpression :: primaryRules)
    (hbefore : ((.functionExpression :: primaryRules).takeWhile (· ≠ r)).all (Next.sign w).excludes =
      true)
    (hw : ((Next.sign w).excludes .prefixOp && (Next.sign w).excludes .arrowFunction) = true)
    (hleaf : r ∈ leafRules) (he : ∀ n : Node Rule, WordOf r w.chars n → leaf n = .ok e) :
    Readable σ e := by
  intro s m h hm
  rw [htokens] at h
  refine expression_of_token h.sign_looks ((h.sign_looks.primary (h.accepted_reads haccepts) hr
    hbefore).mono ?_) hw h.solid hm
  rintro _ ⟨n, rfl, hn⟩
  refine ⟨n, rfl, ?_⟩
  rw [TreeNode, ofNode_leaf (by rw [hn.1]; exact hleaf)]
  exact he n hn

theorem readable_this : Readable σ .this :=
  readable_word (r := .thisExpression) rfl (by decide) (by decide) (by decide)
    (by decide) (by decide) fun n hn => by rw [leaf, hn.1]

theorem readable_literal (l : Literal) : Readable σ (.literal l) := by
  cases l with
  | undefined =>
    refine readable_word (r := .undefinedLiteral) rfl (by decide) (by decide)
      (by decide) (by decide) (by decide) fun n hn => ?_
    rw [leaf, hn.1]
  | null =>
    refine readable_word (r := .nullLiteral) rfl (by decide) (by decide)
      (by decide) (by decide) (by decide) fun n hn => ?_
    rw [leaf, hn.1]
  | boolean b =>
    cases b <;>
    · refine readable_word (r := .booleanLiteral) rfl (by decide) (by decide)
        (by decide) (by decide) (by decide) fun n hn => ?_
      rw [leaf, hn.1, Node.text, hn.2]
      rfl
  | number x =>
    intro s m h hm
    refine expression_of_token h.number_looks ((h.number_looks.primary h.number_reads (by decide)
      (by decide)).mono ?_) (by decide) h.solid hm
    rintro _ ⟨n, rfl, hn⟩
    refine ⟨n, rfl, ?_⟩
    rw [TreeNode, ofNode_leaf (by rw [hn.1]; decide), leaf, hn.1, hn.2]
  | text x =>
    intro s m h hm
    refine expression_of_token h.text_looks ((h.text_looks.primary h.text_reads (by decide)
      (by decide)).mono ?_) (by decide) h.solid hm
    rintro _ ⟨n, rfl, hn⟩
    refine ⟨n, rfl, ?_⟩
    rw [TreeNode, ofNode_leaf (by rw [hn.1]; decide), leaf, hn.1, hn.2]
    rfl

/-- **The expression is read back as an operand** where nothing goes on with the operand, and it
does not look like anything that is tried before an operand. -/
def ReadableOperand (σ : Style) (e : Expr) : Prop :=
  ∀ s m, Laid (e.tokens σ) s m → script.Fails (.rule .postfixOp) m → script.Fails (.lit "=>") m →
    script.Reads (.rule .postfix_) s m (Sole (OperandNode e)) ∧
      script.Fails (.rule .prefixOp) s ∧ script.Fails (.rule .arrowFunction) s

theorem ReadableOperand.readable (he : ReadableOperand σ e) : Readable σ e := by
  intro s m h hm
  obtain ⟨hread, hbare, harrow⟩ := he s m h hm.access hm.arrow
  exact expression_of_operand hread hbare harrow h.solid hm

theorem primary_of_name {x : String} (h : Laid [.name x] s m) :
    script.Reads (.rule .primary) s m (Sole (TreeNode (.name x))) := by
  refine (h.name_looks.primary h.name_reads (by decide) (by decide)).mono ?_
  rintro _ ⟨n, rfl, hn⟩
  refine ⟨n, rfl, ?_⟩
  rw [TreeNode, ofNode_leaf (by rw [hn.1]; decide), leaf, hn.1, text_of_word hn]

/-- A name is no parameter of an arrow function, unless it is followed by an arrow. -/
theorem name_not_arrow {x : String} (h : Laid [.name x] s m) (hm : script.Fails (.lit "=>") m) :
    script.Fails (.rule .arrowFunction) s := by
  have hparams : script.Reads (.rule .arrowParams) s m _ := .rule rfl h.name_reads.altFirst
  exact .rule rfl (hparams.next_fails hm.next)

theorem operand_name (x : String) : ReadableOperand σ (.name x) := by
  intro s m h haccess harrow
  exact ⟨operand_of_primary (primary_of_name h) haccess h.solid_end, h.name_looks.not (by decide),
    name_not_arrow h harrow⟩

/-! ### Lists and objects -/

theorem Expr.tokensAll_eq (es : List Expr) :
    Expr.tokensAll σ es = es.map fun e => wrap (e.tokens σ) := by
  induction es with
  | nil => rfl
  | cons e es ih => rw [Expr.tokensAll, List.map_cons, ih]

theorem Property.tokensAll_eq (ps : List Property) :
    Property.tokensAll σ ps = ps.map (Property.tokens σ) := by
  induction ps with
  | nil => rfl
  | cons p ps ih => rw [Property.tokensAll, List.map_cons, ih]

theorem ofNodes_expressions {es : List Expr} {ns : List (Node Rule)}
    (h : List.Forall₂ ExprNode es ns) : Expr.ofNodes ns = .ok es := by
  induction h with
  | nil => rfl
  | cons he _ ih => simp [Expr.ofNodes, he.2, ih]

/-- Expressions with commas between are read back. -/
theorem expressions_read {es : List Expr} (hes : ∀ e ∈ es, Readable σ e)
    (h : Laid (separated (Expr.tokensAll σ es)) s m) (hm : Ends m)
    (hcomma : script.Fails (.lit ",") m) (hitem : script.Fails (.rule .expression) m) :
    script.Reads (.optional (.commas (.rule .expression))) s m (List.Forall₂ ExprNode es) ∧
      script.Reads (.optional (.next (.commas (.rule .expression)) (.optional (.lit ",")))) s m
        (List.Forall₂ ExprNode es) := by
  rw [Expr.tokensAll_eq] at h
  exact list_reads (fun e he s m h hm => expression_of_wrapped (hes e he) h hm) h hm hcomma hitem

theorem readable_list {items : List Expr} (hitems : ∀ e ∈ items, Readable σ e) :
    Readable σ (.list items) := by
  intro s m h hm
  have hlooks : Looks (.sign .openBracket) s := h.sign_looks
  have hsolid := h.solid
  rw [Expr.tokens] at h
  obtain ⟨k₁, hopen, hrest⟩ := h.uncons
  obtain ⟨k₂, hinner, hclose⟩ := hrest.split
  have hlist := (expressions_read hitems hinner (hclose.ends (by decide))
    (hclose.sign_looks.not_sign .comma (by decide)) (hclose.sign_looks.not (by decide))).2
  have hparts : script.Reads (script.body .arrayLiteral) s m _ :=
    hopen.lit_reads.next (hlist.next hclose.lit_reads)
  refine expression_of_token hlooks ((hlooks.primary (.rule rfl hparts) (by decide)
    (by decide)).mono ?_) (by decide) hsolid hm
  rintro _ ⟨_, rfl, start, stop, _, rfl, _, _, rfl, rfl, ns, _, rfl, hns, rfl⟩
  refine ⟨_, rfl, ?_⟩
  simp [TreeNode, ofNodes_expressions hns]

/-- A node of the property. -/
def PropertyNode (p : Property) (n : Node Rule) : Prop :=
  ∀ rest, Property.ofNodes (n :: rest) = (Property.ofNodes rest).map (p :: ·)

/-- The value of a property is readable. -/
def Property.Readable (σ : Style) : Property → Prop
  | .mk _ e => ScriptModules.Readable σ e

/-- The ways to write a key. -/
def keyPattern : Pattern Rule :=
  .first (.rule .identifierName) [.rule .stringLiteral, .rule .numberLiteral]

/-- **A property has the key that is read before its colon,** however that is written. -/
theorem property_of_key {key : String}
    (hkey : script.Reads keyPattern s k (Sole fun n => keyText n = .ok key)) {k' : List Char}
    (hcolon : Laid [.sign .colon] k k')
    (hvalue : script.Reads (.rule .expression) k' m (Sole (ExprNode e))) :
    script.Reads (.rule .property) s m (Sole (PropertyNode (.mk key e))) := by
  have hparts : script.Reads (script.body .property) s m _ :=
    .altFirst (hkey.next (hcolon.lit_reads.next hvalue))
  refine (Reads.rule rfl hparts).mono ?_
  rintro _ ⟨_, rfl, start, stop, _, rfl, _, _, rfl, ⟨n, rfl, hn⟩, _, _, rfl, rfl, v, rfl, hv⟩
  refine ⟨_, rfl, fun rest => ?_⟩
  simp only [List.nil_append, List.cons_append, Property.ofNodes, hn, hv.2, Built.ok_bind]
  cases Property.ofNodes rest <;> rfl

theorem property_reads {p : Property} (hp : p.Readable σ) (h : Laid (p.tokens σ) s m)
    (hm : Ends m) : script.Reads (.rule .property) s m (Sole (PropertyNode p)) := by
  obtain ⟨key, e⟩ := p
  have he : ScriptModules.Readable σ e := hp
  rw [Property.tokens] at h
  have hname : script.Fails (.rule .identifierName) s := h.text_looks.not (by decide)
  obtain ⟨k₁, hkey, hrest⟩ := h.uncons
  obtain ⟨k₂, hcolon, hvalue⟩ := hrest.uncons
  have hread : script.Reads keyPattern s k₁ (Sole (LiteralOf key)) :=
    .altSecond hname (.altFirst hkey.text_reads)
  refine property_of_key (hread.mono ?_) hcolon (expression_of_wrapped he hvalue hm)
  rintro _ ⟨n, rfl, hn⟩
  have hkeyText : keyText n = .ok key := by rw [keyText, if_pos hn.1, hn.2]
  exact ⟨n, rfl, hkeyText⟩

theorem ofNodes_properties {ps : List Property} {ns : List (Node Rule)}
    (h : List.Forall₂ PropertyNode ps ns) : Property.ofNodes ns = .ok ps := by
  induction h with
  | nil => rfl
  | cons hp _ ih =>
    rw [hp, ih]
    rfl

/-- Properties in braces are an object. -/
theorem object_of_properties {ps : List Property} {k' : List Char} (hopen : Laid [.sign .openBrace] s k)
    (hlist : script.Reads (.optional (.next (.commas (.rule .property)) (.optional (.lit ",")))) k k'
      (List.Forall₂ PropertyNode ps))
    (hclose : Laid [.sign .closeBrace] k' m) (hm : Ends m) :
    script.Reads (.rule .expression) s m (Sole (ExprNode (.object ps))) := by
  have hlooks : Looks (.sign .openBrace) s := hopen.sign_looks
  have hparts : script.Reads (script.body .objectLiteral) s m _ :=
    hopen.lit_reads.next (hlist.next hclose.lit_reads)
  refine expression_of_token hlooks ((hlooks.primary (.rule rfl hparts) (by decide)
    (by decide)).mono ?_) (by decide) hopen.solid hm
  rintro _ ⟨_, rfl, start, stop, _, rfl, _, _, rfl, rfl, ns, _, rfl, hns, rfl⟩
  refine ⟨_, rfl, ?_⟩
  simp [TreeNode, ofNodes_properties hns]

theorem readable_object {ps : List Property} (hps : ∀ p ∈ ps, p.Readable σ) :
    Readable σ (.object ps) := by
  intro s m h hm
  rw [Expr.tokens, Property.tokensAll_eq] at h
  obtain ⟨k₁, hopen, hrest⟩ := h.uncons
  obtain ⟨k₂, hinner, hclose⟩ := hrest.split
  have hlist := (list_reads (fun p hp s m h hm => property_reads (hps p hp) h hm) hinner
    (hclose.ends (by decide)) (hclose.sign_looks.not_sign .comma (by decide))
    (hclose.sign_looks.not (by decide))).2
  exact object_of_properties hopen hlist hclose hm

/-! ### Functions -/

/-- A function expression without a name: behind the word stands a parenthesis. -/
theorem unnamed_function_reads (names : List String) {body : List Stmt}
    (hbody : ∀ st ∈ body, st.Readable σ) (h : Laid ((Expr.function none names body).tokens σ) s m) :
    script.Reads (.rule .functionExpression) s m (Sole (TreeNode (.function none names body))) := by
  rw [Expr.tokens] at h
  obtain ⟨k₁, hword, h⟩ := h.uncons
  obtain ⟨k₂, hparams, hbraces⟩ := h.split
  have hunnamed : script.Fails (.rule .identifier) k₁ :=
    hparams.sign_looks.not (by decide)
  have hparts : script.Reads (script.body .functionExpression) s m _ :=
    (hword.accepted_reads (by decide)).next ((hunnamed.optional hparams.solid).next
      ((Reads.rule rfl (params_read hparams)).next (.rule rfl (braces_read hbody hbraces))))
  refine (Reads.rule rfl hparts).mono ?_
  rintro _ ⟨_, rfl, start, stop, _, rfl, _, _, rfl, ⟨w, rfl, -⟩, _, _, rfl, rfl, _, _, rfl,
    ⟨_, rfl, _, _, ps, rfl, hps⟩, _, rfl, _, _, ns, rfl, hns⟩
  refine ⟨_, rfl, ?_⟩
  have hns : Stmt.ofNodes ns = .ok body := hns
  have hps : ps.map (·.text) = names := hps
  simp [TreeNode, hns, paramNames, Node.children, hps]

/-- A function expression with a name. -/
theorem named_function_reads (x : String) (names : List String) {body : List Stmt}
    (hbody : ∀ st ∈ body, st.Readable σ)
    (h : Laid ((Expr.function (some x) names body).tokens σ) s m) :
    script.Reads (.rule .functionExpression) s m
      (Sole (TreeNode (.function (some x) names body))) := by
  rw [Expr.tokens] at h
  obtain ⟨k₁, hword, h⟩ := h.uncons
  obtain ⟨k₂, hname, h⟩ := h.uncons
  obtain ⟨k₃, hparams, hbraces⟩ := h.split
  have hparts : script.Reads (script.body .functionExpression) s m _ :=
    (hword.accepted_reads (by decide)).next (hname.name_reads.optional.next
      ((Reads.rule rfl (params_read hparams)).next (.rule rfl (braces_read hbody hbraces))))
  refine (Reads.rule rfl hparts).mono ?_
  rintro _ ⟨_, rfl, start, stop, _, rfl, _, _, rfl, ⟨w, rfl, -⟩, _, _, rfl, ⟨n, rfl, hn⟩, _, _,
    rfl, ⟨_, rfl, _, _, ps, rfl, hps⟩, _, rfl, _, _, ns, rfl, hns⟩
  refine ⟨_, rfl, ?_⟩
  have hns : Stmt.ofNodes ns = .ok body := hns
  have hps : ps.map (·.text) = names := hps
  simp [TreeNode, hns, paramNames, Node.children, hps, text_of_word hn]

theorem readable_function (name : Option String) (names : List String) {body : List Stmt}
    (hbody : ∀ st ∈ body, st.Readable σ) : Readable σ (.function name names body) := by
  intro s m h hm
  have hlooks : Looks (.sign .functionWord) s := by
    cases name <;> exact h.sign_looks
  have hread : script.Reads (.rule .functionExpression) s m
      (Sole (TreeNode (.function name names body))) := by
    cases name with
    | none => exact unnamed_function_reads names hbody h
    | some x => exact named_function_reads x names hbody h
  exact expression_of_token hlooks (.silent rfl hread.altFirst) (by decide) h.solid hm

/-- What an arrow function does is readable. -/
def Body.Readable (σ : Style) : Body → Prop
  | .block ss => ∀ st ∈ ss, st.Readable σ
  | .value e => ScriptModules.Readable σ e

theorem readable_arrow (names : List String) {body : Body} (hbody : body.Readable σ) :
    Readable σ (.arrow names body) := by
  intro s m h hm
  rw [Expr.tokens] at h
  obtain ⟨k₁, hparams, h⟩ := h.split
  obtain ⟨k₂, harrow, hbody'⟩ := h.uncons
  have hname : script.Fails (.rule .identifier) s := hparams.sign_looks.not (by decide)
  have hhead : script.Reads (.rule .arrowParams) s k₁ _ :=
    .rule rfl (.altSecond hname (params_read hparams))
  have hread : script.Reads (.rule .arrowFunction) s m (Sole (ExprNode (.arrow names body))) := by
    cases body with
    | block ss =>
      have hparts : script.Reads (script.body .arrowFunction) s m _ :=
        hhead.next (harrow.lit_reads.next (.altFirst (.rule rfl (braces_read hbody hbody'))))
      refine (Reads.rule rfl hparts).mono ?_
      rintro _ ⟨_, rfl, start, stop, _, rfl, _, _, rfl, ⟨_, rfl, _, _, ps, rfl, hps⟩, _, _, rfl, rfl,
        _, rfl, _, _, ns, rfl, hns⟩
      refine ⟨_, rfl, by simp [Node.rule], ?_⟩
      have hns : Stmt.ofNodes ns = .ok ss := hns
      have hps : ps.map (·.text) = names := hps
      simp [hns, paramNames, Node.children, hps]
    | value e =>
      -- the body stands in parentheses, so that it is no block
      have hbraces : script.Fails (.rule .functionBody) k₂ :=
        hbody'.sign_looks.not (by decide)
      have hparts : script.Reads (script.body .arrowFunction) s m _ :=
        hhead.next (harrow.lit_reads.next
          (.altSecond hbraces (expression_of_wrapped hbody hbody' hm)))
      refine (Reads.rule rfl hparts).mono ?_
      rintro _ ⟨_, rfl, start, stop, _, rfl, _, _, rfl, ⟨_, rfl, _, _, ps, rfl, hps⟩, _, _, rfl, rfl,
        n, rfl, hn⟩
      refine ⟨_, rfl, by simp [Node.rule], ?_⟩
      have hps : ps.map (·.text) = names := hps
      have hother : ∀ start stop parts, n = .mk .functionBody start stop parts → False := by
        rintro start stop parts rfl
        exact hn.1 rfl
      simp only [List.nil_append, List.cons_append]
      rw [Expr.ofNode.eq_2 _ _ _ _ hother, hn.2]
      simp [paramNames, Node.children, hps]
  exact .silent rfl hread.altFirst

/-! ### Operators -/

/-- The rule of an operator before an operand. -/
def UnaryOp.rule : UnaryOp → Rule
  | .not => .not
  | .minus => .neg
  | .typeOf => .typeofOp

/-- The rule of an operator between operands. -/
def InfixOp.rule : InfixOp → Rule
  | .logical .or => .or
  | .logical .and => .and
  | .binary .strictlyEqual => .strictEq
  | .binary .strictlyUnequal => .strictNe
  | .binary .equal => .eq
  | .binary .notEqual => .ne
  | .binary .lessThan => .lt
  | .binary .lessThanEqual => .le
  | .binary .greaterThan => .gt
  | .binary .greaterThanEqual => .ge
  | .binary .add => .add
  | .binary .subtract => .sub
  | .binary .multiply => .mul
  | .binary .divide => .div
  | .binary .remainder => .rem

theorem prefixOp_reads {op : UnaryOp} (h : Laid [.sign op.sign] s m) :
    script.Reads (.rule .prefixOp) s m (Sole fun n => n.rule = op.rule) := by
  have hread : script.Reads (.rule op.rule) s m (Sole (WordOf op.rule op.sign.chars)) :=
    h.accepted_reads (by cases op <;> decide)
  have hfirst : script.Reads (.first (.rule .not) ([.neg, .typeofOp].map .rule)) s m _ :=
    h.sign_looks.first hread (by cases op <;> decide) (by cases op <;> decide)
  refine (Reads.silent rfl hfirst).mono ?_
  rintro _ ⟨n, rfl, hn⟩
  exact ⟨n, rfl, hn.1⟩

/-- **The operator between operands is the one that is printed,** although others are tried before
and some match a part of its sign. -/
theorem infixOp_reads {op : InfixOp} (h : Laid [.sign op.sign] s m) :
    script.Reads (.rule .infixOp) s m (Sole fun n => n.rule = op.rule) := by
  have hmem : (op.rule, op.sign) ∈ infixRules := by
    rcases op with op | op <;> cases op <;> decide
  have hread : script.Reads (.rule op.rule) s m (Sole (WordOf op.rule op.sign.chars)) :=
    h.accepted_reads (List.mem_append_left _ hmem)
  have hrule : op.rule ∈ infixRules.map Prod.fst := List.mem_map_of_mem hmem
  have hfirst : script.Reads
      (.first (.rule .or) (((infixRules.map Prod.fst).drop 1).map .rule)) s m _ :=
    hread.first hrule fun r hr => h.sign_looks.fails (infixRules_in_order _ hmem r hr)
  refine (Reads.silent rfl hfirst).mono ?_
  rintro _ ⟨n, rfl, hn⟩
  exact ⟨n, rfl, hn.1⟩

theorem row_of_prefixOp {op : UnaryOp} {n : Node Rule} (h : n.rule = op.rule) (ns : List (Node Rule)) :
    RowItem.ofNodes (n :: ns) = (RowItem.ofNodes ns).map (.before op :: ·) := by
  obtain ⟨r, start, stop, parts⟩ := n
  obtain rfl : r = op.rule := h
  cases op <;> simp only [RowItem.ofNodes, UnaryOp.rule, Node.rule, UnaryOp.ofRule?] <;>
    cases RowItem.ofNodes ns <;> rfl

theorem row_of_infixOp {op : InfixOp} {n : Node Rule} (h : n.rule = op.rule) (ns : List (Node Rule)) :
    RowItem.ofNodes (n :: ns) = (RowItem.ofNodes ns).map (.between op :: ·) := by
  obtain ⟨r, start, stop, parts⟩ := n
  obtain rfl : r = op.rule := h
  rcases op with op | op <;> cases op <;>
    simp only [RowItem.ofNodes, InfixOp.rule, Node.rule, UnaryOp.ofRule?, InfixOp.ofRule?] <;>
    cases RowItem.ofNodes ns <;> rfl

/-- An expression with operators, where nothing goes on with it. -/
theorem expression_of_binary (h : script.Reads (.rule .binary) s m (Sole (TreeNode e)))
    (harrow : script.Fails (.rule .arrowFunction) s) (hassign : script.Fails (.rule .assignment) s)
    (hm : Ends m) : script.Reads (.rule .expression) s m (Sole (ExprNode e)) :=
  expression_of_conditional harrow hassign (conditional_of_binary h hm.question hm.solid)

theorem readable_unary (op : UnaryOp) (he : Readable σ e) : Readable σ (.unary op e) := by
  intro s m h hm
  have hlooks : Looks (.sign op.sign) s := h.sign_looks
  rw [Expr.tokens] at h
  obtain ⟨k, hop, hrest⟩ := h.uncons
  have hbare : script.Fails (.rule .prefixOp) k := hrest.sign_looks.not (by decide)
  have hparts : script.Reads (script.body .binary) s m _ :=
    ((prefixOp_reads hop).many_once hbare).next
      ((operand_of_wrapped he hrest hm.access).next (hm.operator.next.many hm.solid))
  refine expression_of_binary ((Reads.rule rfl hparts).mono ?_)
    (hlooks.not (by cases op <;> decide)) (hlooks.not (by cases op <;> decide)) hm
  rintro _ ⟨_, rfl, start, stop, _, rfl, _, _, rfl, ⟨n, rfl, hn⟩, _, _, rfl, ⟨v, rfl, hv⟩, rfl⟩
  refine ⟨_, rfl, ?_⟩
  simp only [List.append_nil, List.singleton_append]
  rw [TreeNode, Expr.ofNode, row_of_prefixOp hn, row_of_operand hv]
  rfl

/-- A row of two operands with an operator between. -/
theorem row_of_infix {op : InfixOp} {l r : Expr} {n o v : Node Rule} (hn : OperandNode l n)
    (ho : o.rule = op.rule) (hv : OperandNode r v) :
    RowItem.ofNodes [n, o, v] = .ok [.operand l, .between op, .operand r] := by
  have hrest : RowItem.ofNodes [o, v] = .ok [.between op, .operand r] := by
    rw [row_of_infixOp ho, row_of_operand hv]
    rfl
  obtain ⟨hrule, hl⟩ := hn
  obtain ⟨rule, start, stop, parts⟩ := n
  obtain rfl : rule = .postfix_ := hrule
  rw [RowItem.ofNodes, hl, hrest]
  rfl

/-- Two expressions in parentheses with an operator between. -/
theorem readable_infix (op : InfixOp) {l r : Expr} (hl : Readable σ l) (hr : Readable σ r)
    (htokens : (op.apply l r).tokens σ =
      wrap (l.tokens σ) ++ (.sign op.sign :: wrap (r.tokens σ))) :
    Readable σ (op.apply l r) := by
  intro s m h hm
  rw [htokens] at h
  have hbare : script.Fails (.rule .prefixOp) s := (Laid.sign_looks h).not (by decide)
  have hs := h.solid
  obtain ⟨k₁, hleft, h⟩ := h.split
  obtain ⟨k₂, hop, hright⟩ := h.uncons
  have hoperator : op.sign ∈ operators := by rcases op with op | op <;> cases op <;> decide
  have hoperand := operand_of_wrapped hl hleft (hop.not_access (by simp [hoperator]))
  have hbare' : script.Fails (.rule .prefixOp) k₂ := hright.sign_looks.not (by decide)
  have hmore := (infixOp_reads hop).next
    ((hbare'.many hright.solid).next (operand_of_wrapped hr hright hm.access))
  have hparts : script.Reads (script.body .binary) s m _ :=
    (hbare.many hs).next (hoperand.next (hmore.many_once hm.operator.next))
  refine expression_of_binary ((Reads.rule rfl hparts).mono ?_)
    (wrapped_not_arrow hleft (hop.not_arrow (by simp [hoperator])))
    (.rule rfl (hoperand.next_fails (hop.not_assign (by simp [hoperator])).next)) hm
  rintro _ ⟨_, rfl, start, stop, _, rfl, _, _, rfl, rfl, _, _, rfl, ⟨n, rfl, hn⟩, _, _, rfl,
    ⟨o, rfl, ho⟩, _, _, rfl, rfl, v, rfl, hv⟩
  refine ⟨_, rfl, ?_⟩
  simp only [List.nil_append, List.singleton_append]
  rw [TreeNode, Expr.ofNode, row_of_infix hn ho hv]
  rfl

theorem readable_conditional {test c a : Expr} (htest : Readable σ test) (hc : Readable σ c)
    (ha : Readable σ a) : Readable σ (.conditional test c a) := by
  intro s m h hm
  rw [Expr.tokens] at h
  have hbare : script.Fails (.rule .prefixOp) s := (Laid.sign_looks h).not (by decide)
  have hs := h.solid
  obtain ⟨k₁, hleft, h⟩ := h.split
  obtain ⟨k₂, hquestion, h⟩ := h.uncons
  obtain ⟨k₃, hthen, h⟩ := h.split
  obtain ⟨k₄, hcolon, helse⟩ := h.uncons
  have hoperand := operand_of_wrapped htest hleft (hquestion.not_access (by decide))
  have hbinary := binary_of_operand hoperand hbare hs (hquestion.not_operator (by decide))
    hquestion.solid
  have hbranches := hquestion.lit_reads.next
    ((expression_of_wrapped hc hthen (hcolon.ends (by decide))).next
      (hcolon.lit_reads.next (expression_of_wrapped ha helse hm)))
  have hparts : script.Reads (script.body .conditional) s m _ := hbinary.next hbranches.optional
  refine expression_of_conditional (wrapped_not_arrow hleft (hquestion.not_arrow (by decide)))
    (.rule rfl (hoperand.next_fails (hquestion.not_assign (by decide)).next))
    ((Reads.rule rfl hparts).mono ?_)
  rintro _ ⟨_, rfl, start, stop, _, rfl, _, _, rfl, ⟨n, rfl, hn⟩, _, _, rfl, rfl, _, _, rfl,
    ⟨n₁, rfl, hn₁⟩, _, _, rfl, rfl, n₂, rfl, hn₂⟩
  refine ⟨_, rfl, by simp [Node.rule], ?_⟩
  have hn : Expr.ofNode n = .ok test := hn
  simp [hn, hn₁.2, hn₂.2]

/-! ### Members and calls -/

/-- What may stand behind an operand, in the order in which it is tried. -/
theorem Looks.access {n : Next} {r : Rule} {P : List (Node Rule) → Prop} (h : Looks n s)
    (hread : script.Reads (.rule r) s m P) (hr : r ∈ [.callArguments, .memberDot, .memberIndex])
    (hbefore : (([.callArguments, .memberDot, .memberIndex] : List Rule).takeWhile (· ≠ r)).all
      n.excludes = true) : script.Reads (.rule .postfixOp) s m P :=
  have hfirst : script.Reads (.first (.rule .callArguments) ([.memberDot, .memberIndex].map .rule))
    s m P := h.first hread hr hbefore
  .silent rfl hfirst

/-- An expression in parentheses with more of an operand behind it is an operand, if the grammar
reads what is behind as what it adds. -/
theorem operand_accessed {e' : Expr} {w : Sign} {ts : List Token} (he : Readable σ e)
    (htokens : e'.tokens σ = wrap (e.tokens σ) ++ (.sign w :: ts)) (hw : w ∈ accessors)
    (hop : ∀ s m, Laid (.sign w :: ts) s m →
      script.Reads (.rule .postfixOp) s m (Sole fun n => Expr.applyNodes e [n] = .ok e')) :
    ReadableOperand σ e' := by
  intro s m h haccess _
  rw [htokens] at h
  have hbare : script.Fails (.rule .prefixOp) s := (Laid.sign_looks h).not (by decide)
  obtain ⟨k, hobject, hmore⟩ := h.split
  exact ⟨operand_of_access (primary_of_wrapped he hobject) (hop k m hmore) haccess hmore.solid,
    hbare, wrapped_not_arrow hobject (hmore.not_arrow (by simp [hw]))⟩

theorem operand_member (he : Readable σ e) (key : String) : ReadableOperand σ (.member e key) := by
  refine operand_accessed he rfl (by decide) fun s m h => ?_
  obtain ⟨k, hdot, hkey⟩ := h.uncons
  have hparts : script.Reads (script.body .memberDot) s m _ := hdot.lit_reads.next hkey.key_reads
  refine (h.sign_looks.access (.rule rfl hparts) (by decide) (by decide)).mono ?_
  rintro _ ⟨_, rfl, start, stop, _, rfl, _, _, rfl, rfl, n, rfl, hn⟩
  refine ⟨_, rfl, ?_⟩
  simp [Expr.applyNodes, text_of_word hn]

/-- A key in brackets is added to what stands before it. -/
theorem access_of_index {key : Expr} {k' : List Char} (hopen : Laid [.sign .openBracket] s k)
    (hkey : script.Reads (.rule .expression) k k' (Sole (ExprNode key)))
    (hclose : Laid [.sign .closeBracket] k' m) :
    script.Reads (.rule .postfixOp) s m
      (Sole fun n => Expr.applyNodes e [n] = .ok (.index e key)) := by
  have hparts : script.Reads (script.body .memberIndex) s m _ :=
    hopen.lit_reads.next (hkey.next hclose.lit_reads)
  refine (hopen.sign_looks.access (.rule rfl hparts) (by decide) (by decide)).mono ?_
  rintro _ ⟨_, rfl, start, stop, _, rfl, _, _, rfl, rfl, _, _, rfl, ⟨n, rfl, hn⟩, rfl⟩
  refine ⟨_, rfl, ?_⟩
  simp [Expr.applyNodes, hn.2]

theorem operand_index (he : Readable σ e) {key : Expr} (hkey : Readable σ key) :
    ReadableOperand σ (.index e key) := by
  refine operand_accessed he rfl (by decide) fun s m h => ?_
  obtain ⟨k₁, hopen, h⟩ := h.uncons
  obtain ⟨k₂, hinner, hclose⟩ := h.split
  exact access_of_index hopen (expression_of_wrapped hkey hinner (hclose.ends (by decide))) hclose

theorem operand_call (he : Readable σ e) {args : List Expr} (hargs : ∀ e ∈ args, Readable σ e) :
    ReadableOperand σ (.call e args) := by
  refine operand_accessed he rfl (by decide) fun s m h => ?_
  have hlooks := h.sign_looks
  obtain ⟨k₁, hopen, h⟩ := h.uncons
  obtain ⟨k₂, hinner, hclose⟩ := h.split
  have hlist := (expressions_read hargs hinner (hclose.ends (by decide))
    (hclose.sign_looks.not_sign .comma (by decide)) (hclose.sign_looks.not (by decide))).1
  have hparts : script.Reads (script.body .callArguments) s m _ :=
    hopen.lit_reads.next (hlist.next hclose.lit_reads)
  refine (hlooks.access (.rule rfl hparts) (by decide) (by decide)).mono ?_
  rintro _ ⟨_, rfl, start, stop, _, rfl, _, _, rfl, rfl, ns, _, rfl, hns, rfl⟩
  refine ⟨_, rfl, ?_⟩
  simp [Expr.applyNodes, ofNodes_expressions hns]

/-! ### Assignments -/

theorem AssignOp.ofText_sign (op : AssignOp) : AssignOp.ofText op.sign.text = op := by
  cases op <;> rfl

/-- What is assigned to is read back, with or without parentheses. -/
theorem target_reads {t : Target} (ht : ReadableOperand σ t.toExpr) {op : AssignOp}
    {ts : List Token} (h : Laid (wrapIf σ.wrapsTargets (t.tokens σ)) s k)
    (hop : Laid (.sign op.sign :: ts) k m) :
    script.Reads (.rule .postfix_) s k (Sole (OperandNode t.toExpr)) ∧
      script.Fails (.rule .arrowFunction) s := by
  have hassigner : op.sign ∈ assigners := by cases op <;> decide
  have haccess := hop.not_access (by simp [hassigner])
  have harrow := hop.not_arrow (by simp [hassigner])
  rw [← Target.tokens_toExpr] at h
  cases hwraps : σ.wrapsTargets with
  | true =>
    rw [hwraps, wrapIf, if_pos rfl] at h
    exact ⟨operand_of_wrapped ht.readable h haccess, wrapped_not_arrow h harrow⟩
  | false =>
    rw [hwraps] at h
    obtain ⟨hread, -, hfails⟩ := ht s k h haccess harrow
    exact ⟨hread, hfails⟩

/-- An operand, a sign that assigns, and an expression are an assignment. -/
theorem expression_of_assignment (op : AssignOp) (t : Target) {k' : List Char}
    (htarget : script.Reads (.rule .postfix_) s k (Sole (OperandNode t.toExpr)))
    (harrow : script.Fails (.rule .arrowFunction) s) (hop : Laid [.sign op.sign] k k')
    (hvalue : script.Reads (.rule .expression) k' m (Sole (ExprNode e))) :
    script.Reads (.rule .expression) s m (Sole (ExprNode (.assign op t e))) := by
  have hparts : script.Reads (script.body .assignment) s m _ :=
    htarget.next ((hop.accepted_reads (by cases op <;> decide)).next hvalue)
  refine (Reads.silent rfl (.altSecond harrow (.altFirst (.rule rfl hparts)))).mono ?_
  rintro _ ⟨_, rfl, start, stop, _, rfl, _, _, rfl, ⟨n, rfl, hn⟩, _, _, rfl, ⟨o, rfl, ho⟩, v, rfl, hv⟩
  refine ⟨_, rfl, by simp [Node.rule], ?_⟩
  have htext : o.text = op.sign.text := text_of_word ho
  simp [hn.2, hv.2, htext, AssignOp.ofText_sign]

theorem readable_assign (op : AssignOp) {t : Target} (ht : ReadableOperand σ t.toExpr)
    (he : Readable σ e) : Readable σ (.assign op t e) := by
  intro s m h hm
  rw [Expr.tokens] at h
  obtain ⟨k₁, htarget, h⟩ := h.split
  obtain ⟨k₂, hop, hvalue⟩ := h.uncons
  obtain ⟨hread, harrow⟩ := target_reads ht htarget hop
  exact expression_of_assignment op t hread harrow hop (expression_of_wrapped he hvalue hm)

end ScriptModules
