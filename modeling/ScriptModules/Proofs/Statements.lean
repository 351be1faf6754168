import ScriptModules.Proofs.Expressions

/-!
# Reading statements back

One lemma for each kind of statement, which takes the parts to be readable. Statements are told
apart by their first token, and every expression in one stands in parentheses, so that no statement
is taken for a block or a declaration of a function. An alternative belongs to the nearest `if`
that has none, so what stands before it must not end in such an `if`.
-/

namespace ScriptModules

open Grammar Grammar.RuleSet Token

variable {σ : Style} {e : Expr} {s k m : List Char}

-- what a statement is built from and what it is written as
attribute [local simp] Stmt.ofNode Stmt.tokens Declarator.ofNodes Declarator.tokens

/-- The kinds of statements, in the order in which they are tried. -/
def statementRules : List Rule := [.functionDeclaration, .variableStatement, .returnStatement,
  .ifStatement, .throwStatement, .block, .emptyStatement, .expressionStatement]

theorem Looks.statement {n : Next} {r : Rule} {P : List (Node Rule) → Prop} (h : Looks n s)
    (hread : script.Reads (.rule r) s m P) (hr : r ∈ statementRules)
    (hbefore : (statementRules.takeWhile (· ≠ r)).all n.excludes = true) :
    script.Reads (.rule .statement) s m P :=
  have hfirst : script.Reads
      (.first (.rule .functionDeclaration) ((statementRules.drop 1).map .rule)) s m P :=
    h.first hread hr hbefore
  .silent rfl hfirst

/-- A semicolon that closes a statement. -/
theorem semicolon_reads (h : Laid [.sign .semicolon] s m) :
    script.Reads Rule.semicolon s m Nothing := h.lit_reads.optional

/-- **An expression is a statement** where no statement of another kind begins. -/
theorem statement_of_expression
    (hbefore : ∀ r ∈ statementRules.takeWhile (· ≠ .expressionStatement), script.Fails (.rule r) s)
    (he : script.Reads (.rule .expression) s k (Sole (ExprNode e)))
    (hend : script.Reads Rule.semicolon k m Nothing) :
    script.Reads (.rule .statement) s m (Sole (StmtNode (.expression e))) := by
  have hparts : script.Reads (script.body .expressionStatement) s m _ := he.next hend
  have hfirst : script.Reads
      (.first (.rule .functionDeclaration) ((statementRules.drop 1).map .rule)) s m _ :=
    (Reads.rule rfl hparts).first (by decide) hbefore
  refine (Reads.silent rfl hfirst).mono ?_
  rintro _ ⟨_, rfl, start, stop, _, rfl, _, _, rfl, ⟨n, rfl, hn⟩, rfl⟩
  refine ⟨_, rfl, by simp [Node.rule], ?_⟩
  simp [hn.2]

theorem readable_expression (he : Readable σ e) : (Stmt.expression e).Readable σ := by
  intro s m h _
  rw [Stmt.tokens] at h
  have hlooks : Looks (.sign .openParen) s := Laid.sign_looks h
  have hbefore : (statementRules.takeWhile (· ≠ .expressionStatement)).all
      (Next.sign .openParen).excludes = true := by decide
  obtain ⟨k, hinner, hend⟩ := h.split
  exact statement_of_expression (fun r hr => hlooks.not (List.all_eq_true.1 hbefore r hr))
    (expression_of_wrapped he hinner (hend.ends (by decide))) (semicolon_reads hend)

theorem readable_throw (he : Readable σ e) : (Stmt.throw e).Readable σ := by
  intro s m h _
  rw [Stmt.tokens] at h
  have hlooks := h.sign_looks
  obtain ⟨k₁, hword, h⟩ := h.uncons
  obtain ⟨k₂, hinner, hend⟩ := h.split
  have hparts : script.Reads (script.body .throwStatement) s m _ :=
    (hword.accepted_reads (by decide)).next
      ((expression_of_wrapped he hinner (hend.ends (by decide))).next (semicolon_reads hend))
  refine (hlooks.statement (.rule rfl hparts) (by decide) (by decide)).mono ?_
  rintro _ ⟨_, rfl, start, stop, _, rfl, _, _, rfl, ⟨w, rfl, -⟩, _, _, rfl, ⟨n, rfl, hn⟩, rfl⟩
  refine ⟨_, rfl, by simp [Node.rule], ?_⟩
  simp [hn.2]

theorem readable_return {value : Option Expr} (hvalue : ∀ e ∈ value, Readable σ e) :
    (Stmt.ret value).Readable σ := by
  intro s m h _
  cases value with
  | none =>
    rw [Stmt.tokens] at h
    have hlooks := h.sign_looks
    obtain ⟨k, hword, hend⟩ := h.uncons
    -- with a semicolon before it no expression begins
    have hnone : script.Fails (.rule .expression) k := hend.sign_looks.not (by decide)
    have hparts : script.Reads (script.body .returnStatement) s m _ :=
      (hword.accepted_reads (by decide)).next
        ((hnone.optional hend.solid).next (semicolon_reads hend))
    refine (hlooks.statement (.rule rfl hparts) (by decide) (by decide)).mono ?_
    rintro _ ⟨_, rfl, start, stop, _, rfl, _, _, rfl, ⟨w, rfl, -⟩, _, _, rfl, rfl, rfl⟩
    exact ⟨_, rfl, by simp [Node.rule], rfl⟩
  | some e =>
    rw [Stmt.tokens] at h
    have hlooks := h.sign_looks
    obtain ⟨k₁, hword, h⟩ := h.uncons
    obtain ⟨k₂, hinner, hend⟩ := h.split
    have he := expression_of_wrapped (hvalue e rfl) hinner (hend.ends (by decide))
    have hparts : script.Reads (script.body .returnStatement) s m _ :=
      (hword.accepted_reads (by decide)).next (he.optional.next (semicolon_reads hend))
    refine (hlooks.statement (.rule rfl hparts) (by decide) (by decide)).mono ?_
    rintro _ ⟨_, rfl, start, stop, _, rfl, _, _, rfl, ⟨w, rfl, -⟩, _, _, rfl, ⟨n, rfl, hn⟩, rfl⟩
    refine ⟨_, rfl, by simp [Node.rule], ?_⟩
    simp [hn.2]

theorem readable_block {ss : List Stmt} (hss : ∀ st ∈ ss, st.Readable σ) :
    (Stmt.block ss).Readable σ := by
  intro s m h _
  have hlooks : Looks (.sign .openBrace) s := h.sign_looks
  have hparts : script.Reads (script.body .block) s m _ := braces_read hss h
  refine (hlooks.statement (.rule rfl hparts) (by decide) (by decide)).mono ?_
  rintro _ ⟨_, rfl, start, stop, ns, rfl, hns⟩
  refine ⟨_, rfl, by simp [Node.rule], ?_⟩
  have hns : Stmt.ofNodes ns = .ok ss := hns
  simp [hns]

theorem readable_empty : Stmt.empty.Readable σ := by
  intro s m h _
  have hlooks : Looks (.sign .semicolon) s := h.sign_looks
  have hparts : script.Reads (script.body .emptyStatement) s m _ := h.lit_reads
  refine (hlooks.statement (.rule rfl hparts) (by decide) (by decide)).mono ?_
  rintro _ ⟨_, rfl, start, stop, ns, rfl, hns⟩
  exact ⟨_, rfl, by simp [Node.rule], rfl⟩

theorem readable_declaration (x : String) (names : List String) {body : List Stmt}
    (hbody : ∀ st ∈ body, st.Readable σ) : (Stmt.function x names body).Readable σ := by
  intro s m h _
  rw [Stmt.tokens] at h
  have hlooks := h.sign_looks
  obtain ⟨k₁, hword, h⟩ := h.uncons
  obtain ⟨k₂, hname, h⟩ := h.uncons
  obtain ⟨k₃, hparams, hbraces⟩ := h.split
  have hparts : script.Reads (script.body .functionDeclaration) s m _ :=
    (hword.accepted_reads (by decide)).next (hname.name_reads.next
      ((Reads.rule rfl (params_read hparams)).next (.rule rfl (braces_read hbody hbraces))))
  refine (hlooks.statement (.rule rfl hparts) (by decide) (by decide)).mono ?_
  rintro _ ⟨_, rfl, start, stop, _, rfl, _, _, rfl, ⟨w, rfl, -⟩, _, _, rfl, ⟨n, rfl, hn⟩, _, _,
    rfl, ⟨_, rfl, _, _, ps, rfl, hps⟩, _, rfl, _, _, ns, rfl, hns⟩
  refine ⟨_, rfl, by simp [Node.rule], ?_⟩
  have hns : Stmt.ofNodes ns = .ok body := hns
  have hps : ps.map (·.text) = names := hps
  simp [hns, paramNames, Node.children, hps, text_of_word hn]

/-! ### Declarations of variables -/

theorem Declarator.tokensAll_eq (ds : List Declarator) :
    Declarator.tokensAll σ ds = ds.map (Declarator.tokens σ) := by
  induction ds with
  | nil => rfl
  | cons d ds ih => rw [Declarator.tokensAll, List.map_cons, ih]

/-- A node of the declared name. -/
def DeclaratorNode (kind : DeclarationKind) (d : Declarator) (n : Node Rule) : Prop :=
  ∀ rest, Declarator.ofNodes kind (n :: rest) = (Declarator.ofNodes kind rest).map (d :: ·)

/-- The initial value is readable, and a constant has one. -/
def Declarator.Readable (σ : Style) (kind : DeclarationKind) : Declarator → Prop
  | .mk _ none => kind ≠ .const
  | .mk _ (some e) => ScriptModules.Readable σ e

theorem declarator_reads {kind : DeclarationKind} {d : Declarator} (hd : d.Readable σ kind)
    (h : Laid (d.tokens σ) s m) (hm : Ends m) :
    script.Reads (.rule .variableDeclaration) s m (Sole (DeclaratorNode kind d)) := by
  obtain ⟨x, init⟩ := d
  cases init with
  | none =>
    have hkind : kind ≠ .const := hd
    rw [Declarator.tokens] at h
    have hparts : script.Reads (script.body .variableDeclaration) s m _ :=
      h.name_reads.next (hm.equals.next.optional hm.solid)
    refine (Reads.rule rfl hparts).mono ?_
    rintro _ ⟨_, rfl, start, stop, _, rfl, _, _, rfl, ⟨n, rfl, hn⟩, rfl⟩
    refine ⟨_, rfl, fun rest => ?_⟩
    rw [List.append_nil, Declarator.ofNodes, if_neg hkind, text_of_word hn]
    cases Declarator.ofNodes kind rest <;> rfl
  | some e =>
    have he : ScriptModules.Readable σ e := hd
    rw [Declarator.tokens] at h
    obtain ⟨k₁, hname, h⟩ := h.uncons
    obtain ⟨k₂, hequals, hvalue⟩ := h.uncons
    have hparts : script.Reads (script.body .variableDeclaration) s m _ :=
      hname.name_reads.next (hequals.lit_reads.next (expression_of_wrapped he hvalue hm)).optional
    refine (Reads.rule rfl hparts).mono ?_
    rintro _ ⟨_, rfl, start, stop, _, rfl, _, _, rfl, ⟨n, rfl, hn⟩, _, _, rfl, rfl, v, rfl, hv⟩
    refine ⟨_, rfl, fun rest => ?_⟩
    simp only [List.nil_append, List.singleton_append]
    rw [Declarator.ofNodes, hv.2, text_of_word hn]
    cases Declarator.ofNodes kind rest <;> rfl

theorem ofNodes_declarators {kind : DeclarationKind} {ds : List Declarator} {ns : List (Node Rule)}
    (h : List.Forall₂ (DeclaratorNode kind) ds ns) : Declarator.ofNodes kind ns = .ok ds := by
  induction h with
  | nil => rfl
  | cons hd _ ih =>
    rw [hd, ih]
    rfl

theorem DeclarationKind.ofText_word (kind : DeclarationKind) :
    DeclarationKind.ofText kind.word.text = kind := by
  cases kind <;> rfl

theorem readable_declare (kind : DeclarationKind) {ds : List Declarator} (hne : ds ≠ [])
    (hds : ∀ d ∈ ds, d.Readable σ kind) : (Stmt.declare kind ds).Readable σ := by
  intro s m h _
  rw [Stmt.tokens, Declarator.tokensAll_eq] at h
  have hlooks := h.sign_looks
  obtain ⟨k₁, hword, h⟩ := h.uncons
  obtain ⟨k₂, hlist, hend⟩ := h.split
  have hends : Ends k₂ := hend.ends (by decide)
  cases ds with
  | nil => exact absurd rfl hne
  | cons d ds =>
    have hread : ∀ d' ∈ d :: ds, ∀ s m, Laid (Declarator.tokens σ d') s m → Ends m →
        script.Reads (.rule .variableDeclaration) s m (Sole (DeclaratorNode kind d')) :=
      fun d' hd' s m h hm => declarator_reads (hds d' hd') h hm
    obtain ⟨k, hfirst, hrest⟩ := Laid.split hlist
    -- the declarators that follow end where no comma stands
    obtain ⟨hfollowing, hk⟩ := following_reads (fun d' hd' => hread d' (List.mem_cons_of_mem _ hd'))
      hrest hends (hend.sign_looks.not_sign .comma (by decide))
    have hdeclarators := (hread d (List.mem_cons_self ..) k₁ k hfirst hk).next
      ((hfollowing.many hk.solid).next (semicolon_reads hend))
    have hparts : script.Reads (script.body .variableStatement) s m _ :=
      (hword.accepted_reads (by cases kind <;> decide)).next hdeclarators
    refine (hlooks.statement (.rule rfl hparts) (by decide) (by cases kind <;> decide)).mono ?_
    rintro _ ⟨_, rfl, start, stop, _, rfl, _, _, rfl, ⟨w, rfl, hw⟩, _, _, rfl, ⟨n, rfl, hn⟩, ns, _,
      rfl, hns, rfl⟩
    refine ⟨_, rfl, by simp [Node.rule], ?_⟩
    have hkind : w.text = kind.word.text := text_of_word hw
    simp only [List.append_nil, List.singleton_append]
    rw [Stmt.ofNode, hkind, DeclarationKind.ofText_word, ofNodes_declarators (.cons hn hns)]
    rfl

/-! ### Alternatives -/

/-- The test of an `if` is read back, with or without parentheses of its own. -/
theorem test_reads {test : Expr} (htest : Readable σ test)
    (h : Laid (wrapIf σ.wrapsTests (test.tokens σ)) s m) (hm : Ends m) :
    script.Reads (.rule .expression) s m (Sole (ExprNode test)) := by
  cases hwraps : σ.wrapsTests with
  | true =>
    rw [hwraps, wrapIf, if_pos rfl] at h
    exact expression_of_wrapped htest h hm
  | false =>
    rw [hwraps] at h
    exact htest s m h hm

theorem readable_if {test : Expr} {c : Stmt} (htest : Readable σ test) (hc : c.Readable σ) :
    (Stmt.ifElse test c none).Readable σ := by
  intro s m h helse
  rw [Stmt.tokens] at h
  have hlooks := h.sign_looks
  obtain ⟨k₁, hword, h⟩ := h.uncons
  obtain ⟨k₂, hwrapped, hthen⟩ := h.split
  obtain ⟨k₃, hopen, hinner⟩ := hwrapped.uncons
  obtain ⟨k₄, htest', hclose⟩ := hinner.split
  have hfails : script.Fails (.rule .kwElse) m := helse rfl
  have hparts : script.Reads (script.body .ifStatement) s m _ :=
    (hword.accepted_reads (by decide)).next (hopen.lit_reads.next
      ((test_reads htest htest' (hclose.ends (by decide))).next (hclose.lit_reads.next
        ((hc k₂ m hthen fun _ => hfails).next (hfails.next.optional hthen.solid_end)))))
  refine (hlooks.statement (.rule rfl hparts) (by decide) (by decide)).mono ?_
  rintro _ ⟨_, rfl, start, stop, _, rfl, _, _, rfl, ⟨w, rfl, -⟩, _, _, rfl, rfl, _, _, rfl,
    ⟨t, rfl, ht⟩, _, _, rfl, rfl, _, _, rfl, ⟨n, rfl, hn⟩, rfl⟩
  refine ⟨_, rfl, by simp [Node.rule], ?_⟩
  simp [ht.2, hn.2]

/-- **An `else` goes to the `if` that it is printed with,** if what stands between does not end in
an `if` without one. -/
theorem readable_ifElse {test : Expr} {c a : Stmt} (htest : Readable σ test) (hc : c.Readable σ)
    (hclosed : c.endsOpen = false) (ha : a.Readable σ) :
    (Stmt.ifElse test c (some a)).Readable σ := by
  intro s m h helse
  rw [Stmt.tokens] at h
  have hlooks := h.sign_looks
  obtain ⟨k₁, hword, h⟩ := h.uncons
  obtain ⟨k₂, hwrapped, h⟩ := h.split
  obtain ⟨k₃, hopen, hinner⟩ := hwrapped.uncons
  obtain ⟨k₄, htest', hclose⟩ := hinner.split
  obtain ⟨k₅, hthen, h⟩ := h.split
  obtain ⟨k₆, hword', hother⟩ := h.uncons
  have hconsequent := hc k₂ k₅ hthen fun hopen => by
    rw [hclosed] at hopen
    cases hopen
  have halternate := (hword'.accepted_reads (r := .kwElse) (by decide)).next (ha k₆ m hother helse)
  have hparts : script.Reads (script.body .ifStatement) s m _ :=
    (hword.accepted_reads (by decide)).next (hopen.lit_reads.next
      ((test_reads htest htest' (hclose.ends (by decide))).next (hclose.lit_reads.next
        (hconsequent.next halternate.optional))))
  refine (hlooks.statement (.rule rfl hparts) (by decide) (by decide)).mono ?_
  rintro _ ⟨_, rfl, start, stop, _, rfl, _, _, rfl, ⟨w, rfl, -⟩, _, _, rfl, rfl, _, _, rfl,
    ⟨t, rfl, ht⟩, _, _, rfl, rfl, _, _, rfl, ⟨n₁, rfl, hn₁⟩, _, _, rfl, ⟨w', rfl, -⟩, n₂, rfl, hn₂⟩
  refine ⟨_, rfl, by simp [Node.rule], ?_⟩
  simp [ht.2, hn₁.2, hn₂.2]

end ScriptModules
