import ScriptModules.Proofs.Statements

/-!
# Parsing undoes printing

Every tree that has a text is readable, by induction over expressions and statements at once. So the
parser gives back the program that a text spells, whatever gaps stand between its tokens
(`Program.parse_of_spells`).
-/

namespace ScriptModules

open Grammar Grammar.RuleSet

/-! ### All trees -/

section

variable (σ : Style)

mutual

/-- **Every expression that has a text is readable.** -/
theorem Expr.readable : ∀ e : Expr, e.writable = true → Readable σ e
  | .literal l, _ => readable_literal l
  | .name x, _ => (operand_name x).readable
  | .this, _ => readable_this
  | .list items, h => readable_list (Expr.allReadable items h)
  | .object ps, h => readable_object (Property.allReadable ps h)
  | .function name names body, h => readable_function name names (Stmt.allReadable body h)
  | .arrow names body, h => readable_arrow names (Body.readable body h)
  | .unary op e, h => readable_unary op (Expr.readable e h)
  | .binary op l r, h => by
    obtain ⟨hl, hr⟩ := Bool.and_eq_true_iff.1 h
    exact readable_infix (.binary op) (Expr.readable l hl) (Expr.readable r hr) rfl
  | .logical op l r, h => by
    obtain ⟨hl, hr⟩ := Bool.and_eq_true_iff.1 h
    exact readable_infix (.logical op) (Expr.readable l hl) (Expr.readable r hr) rfl
  | .conditional test c a, h => by
    simp only [Expr.writable, Bool.and_eq_true] at h
    exact readable_conditional (Expr.readable test h.1.1) (Expr.readable c h.1.2)
      (Expr.readable a h.2)
  | .assign op t e, h => by
    obtain ⟨ht, he⟩ := Bool.and_eq_true_iff.1 h
    exact readable_assign op (Target.readable t ht) (Expr.readable e he)
  | .member e key, h => (operand_member (Expr.readable e h) key).readable
  | .index e key, h => by
    obtain ⟨he, hkey⟩ := Bool.and_eq_true_iff.1 h
    exact (operand_index (Expr.readable e he) (Expr.readable key hkey)).readable
  | .call e args, h => by
    obtain ⟨he, hargs⟩ := Bool.and_eq_true_iff.1 h
    exact (operand_call (Expr.readable e he) (Expr.allReadable args hargs)).readable

theorem Expr.allReadable : ∀ es : List Expr, Expr.allWritable es = true → ∀ e ∈ es, Readable σ e
  | [], _ => by simp
  | e :: es, h => by
    obtain ⟨he, hes⟩ := Bool.and_eq_true_iff.1 h
    exact List.forall_mem_cons.2 ⟨Expr.readable e he, Expr.allReadable es hes⟩

theorem Target.readable : ∀ t : Target, t.writable = true → ReadableOperand σ t.toExpr
  | .name x, _ => operand_name x
  | .member e key, h => operand_member (Expr.readable e h) key
  | .index e key, h => by
    obtain ⟨he, hkey⟩ := Bool.and_eq_true_iff.1 h
    exact operand_index (Expr.readable e he) (Expr.readable key hkey)

theorem Property.readable : ∀ p : Property, p.writable = true → p.Readable σ
  | .mk _ e, h => Expr.readable e h

theorem Property.allReadable :
    ∀ ps : List Property, Property.allWritable ps = true → ∀ p ∈ ps, p.Readable σ
  | [], _ => by simp
  | p :: ps, h => by
    obtain ⟨hp, hps⟩ := Bool.and_eq_true_iff.1 h
    exact List.forall_mem_cons.2 ⟨Property.readable p hp, Property.allReadable ps hps⟩

theorem Body.readable : ∀ b : Body, b.writable = true → b.Readable σ
  | .block ss, h => Stmt.allReadable ss h
  | .value e, h => Expr.readable e h

/-- **Every statement that has a text is readable.** -/
theorem Stmt.readable : ∀ st : Stmt, st.writable = true → st.Readable σ
  | .expression e, h => readable_expression (Expr.readable e h)
  | .declare kind ds, h => by
    obtain ⟨hne, hds⟩ := Bool.and_eq_true_iff.1 h
    refine readable_declare kind ?_ (Declarator.allReadable kind ds hds)
    rintro rfl
    cases hne
  | .function x names body, h => readable_declaration x names (Stmt.allReadable body h)
  | .ret none, _ => readable_return (by simp)
  | .ret (some e), h => readable_return fun e' he' => by
    cases he'
    exact Expr.readable e h
  | .ifElse test c none, h => by
    obtain ⟨htest, hc⟩ := Bool.and_eq_true_iff.1 h
    exact readable_if (Expr.readable test htest) (Stmt.readable c hc)
  | .ifElse test c (some a), h => by
    simp only [Stmt.writable, Bool.and_eq_true, Bool.not_eq_true'] at h
    obtain ⟨⟨⟨htest, hc⟩, hclosed⟩, ha⟩ := h
    exact readable_ifElse (Expr.readable test htest) (Stmt.readable c hc) hclosed
      (Stmt.readable a ha)
  | .throw e, h => readable_throw (Expr.readable e h)
  | .block ss, h => readable_block (Stmt.allReadable ss h)
  | .empty, _ => readable_empty

theorem Stmt.allReadable :
    ∀ ss : List Stmt, Stmt.allWritable ss = true → ∀ st ∈ ss, st.Readable σ
  | [], _ => by simp
  | st :: ss, h => by
    obtain ⟨hst, hss⟩ := Bool.and_eq_true_iff.1 h
    exact List.forall_mem_cons.2 ⟨Stmt.readable st hst, Stmt.allReadable ss hss⟩

theorem Declarator.readable (kind : DeclarationKind) :
    ∀ d : Declarator, d.writable kind = true → d.Readable σ kind
  | .mk _ none, h => by
    have hkind : kind ≠ .const := by simpa [Declarator.writable] using h
    exact hkind
  | .mk _ (some e), h => Expr.readable e h

theorem Declarator.allReadable (kind : DeclarationKind) :
    ∀ ds : List Declarator, Declarator.allWritable kind ds = true → ∀ d ∈ ds, d.Readable σ kind
  | [], _ => by simp
  | d :: ds, h => by
    obtain ⟨hd, hds⟩ := Bool.and_eq_true_iff.1 h
    exact List.forall_mem_cons.2 ⟨Declarator.readable kind d hd, Declarator.allReadable kind ds hds⟩

end

end

/-! ### Programs -/

/-- **A row of statements is matched as a whole script,** with a node for the end. -/
theorem statements_script {ss : List Stmt} {lead s : List Char} (hlead : Blank lead) (hs : Solid s)
    (hreads : script.ReadsEach (.rule .statement) StmtNode ss s []) :
    script.Reads (.rule .script) (lead ++ s) [] (Sole fun n =>
      ∃ e : Node Rule, e.rule = .endOfInput ∧ ∃ ns, n.children = ns ++ [e] ∧
        List.Forall₂ StmtNode ss ns) := by
  have hend : script.Reads (.rule .endOfInput) [] [] (Sole (NodeOf .endOfInput Nothing)) :=
    .rule rfl fun o => ⟨⟨o, []⟩, [], .finish rfl, rfl, rfl⟩
  have hparts : script.Reads (script.body .script) (lead ++ s) [] _ := fun o => by
    obtain ⟨o', hblank⟩ := comes_blank (g := script) (c := ⟨o, lead ++ s⟩)
      (hs.behind_blank hlead o)
    obtain ⟨c, ns, hc, hm, hns⟩ := (hreads.many hs).next hend o'
    exact ⟨c, [] ++ ns, .cat hblank hc, hm, hns⟩
  refine (Reads.rule rfl hparts).mono ?_
  rintro _ ⟨_, rfl, start, stop, _, rfl, ns, _, rfl, hns, e, rfl, _, _, _, rfl, -⟩
  exact ⟨_, rfl, _, rfl, ns, rfl, hns⟩

/-- The statements of a program are matched as a whole script. -/
theorem script_reads {σ : Style} {ss : List Stmt} (hss : ∀ st ∈ ss, st.Readable σ)
    {lead s : List Char} (hlead : Blank lead) (h : Laid (Stmt.tokensAll σ ss) s []) :
    script.Reads (.rule .script) (lead ++ s) [] (Sole fun n =>
      ∃ e : Node Rule, e.rule = .endOfInput ∧ ∃ ns, n.children = ns ++ [e] ∧
        List.Forall₂ StmtNode ss ns) := by
  obtain ⟨hreads, -⟩ := statements_read hss h (looks_finished.not (by decide))
    (looks_finished.not (by decide))
  exact statements_script hlead h.solid hreads

/-- **A text is parsed into the statements that are read in it.** -/
theorem Program.parse_of_reads {ss : List Stmt} {s : List Char} (hs : Solid s)
    (hreads : script.ReadsEach (.rule .statement) StmtNode ss s []) :
    Program.parse (String.ofList s) = .ok ⟨ss⟩ := by
  obtain ⟨c, _, hcomes, -, n, rfl, e, he, ns, hchildren, hns⟩ := statements_script .nil hs hreads 0
  have hmatched : (matchScript s).1 = .matched c [n] := matched_iff_comes.2 hcomes
  have hbuilt : Stmt.ofNodes n.children = .ok ss := by
    obtain ⟨r, start, stop, parts⟩ := e
    obtain rfl : r = .endOfInput := he
    rw [hchildren, ofNodes_statements hns, Stmt.ofNodes, Stmt.ofNodes]
    exact congrArg Except.ok (List.append_nil ss)
  unfold Program.parse
  rw [String.toList_ofList]
  rcases hm : matchScript s with ⟨v, a⟩
  rw [hm] at hmatched
  obtain rfl : v = .matched c [n] := hmatched
  exact congrArg (Except.map Program.mk) hbuilt

/-- **Parsing undoes printing:** the parser reads a program back from every text that spells it,
whatever spellings its numbers and texts have and whatever gaps stand between its tokens. -/
theorem Program.parse_of_spells (σ : Style) (p : Program) (hp : p.writable = true) {text : String}
    (htext : Spells (p.tokens σ) text.toList) : Program.parse text = .ok p := by
  obtain ⟨lead, s, hlead, hspaced, htext⟩ := htext
  obtain ⟨c, _, hcomes, -, n, rfl, e, he, ns, hchildren, hns⟩ :=
    script_reads (Stmt.allReadable σ p.body hp) hlead hspaced.laid 0
  have hmatched : (matchScript text.toList).1 = .matched c [n] := by
    rw [htext]
    exact matched_iff_comes.2 hcomes
  have hbuilt : Stmt.ofNodes n.children = .ok p.body := by
    obtain ⟨r, start, stop, parts⟩ := e
    obtain rfl : r = .endOfInput := he
    rw [hchildren, ofNodes_statements hns, Stmt.ofNodes, Stmt.ofNodes]
    exact congrArg Except.ok (List.append_nil p.body)
  unfold Program.parse
  rcases hm : matchScript text.toList with ⟨v, a⟩
  rw [hm] at hmatched
  obtain rfl : v = .matched c [n] := hmatched
  exact congrArg (Except.map Program.mk) hbuilt

theorem Program.parse_of_spells_commented :
    Program.parse " ( n /* grows */ += ( ( 'it\\'s' ) + ( 1 ) ) ) // by one\n ;" =
      .ok ⟨[.expression (.assign .add (.name "n") (.binary .add (.literal (.text "it's"))
        (.literal (.number (Number.ofDecimal false 1 0)))))]⟩ := by
  have hspace : Gap [' '] := ⟨.space rfl .nil, ' ', [], rfl, rfl⟩
  have hblock : Gap (' ' :: '/' :: '*' :: (" grows ".toList ++ '*' :: '/' :: [' '])) :=
    ⟨.space rfl (.block (by decide +kernel) hspace.blank), ' ', _, rfl, rfl⟩
  have hline : Gap (' ' :: '/' :: '/' :: (" by one".toList ++ '\n' :: [' '])) :=
    ⟨.space rfl (.line (by decide +kernel) hspace.blank), ' ', _, rfl, rfl⟩
  have hname : (Token.name "n").Spelling "n".toList := ⟨rfl, by decide +kernel⟩
  have hraw : Quoted '\'' ['i', 't', '\\', '\'', 's'] :=
    .plain (by decide) (by decide) (by decide) (.plain (by decide) (by decide) (by decide)
      (.escaped (.plain (by decide) (by decide) (by decide) .nil)))
  have htext : (Token.text "it's").Spelling _ := IsLiteral.single hraw (by decide)
  have hnumber : (Token.number (Number.ofDecimal false 1 0)).Spelling "1".toList :=
    ⟨by decide +kernel, rfl⟩
  have hspaced : Spaced [.sign .openParen, .name "n", .sign .addAssign, .sign .openParen,
      .sign .openParen, .text "it's", .sign .closeParen, .sign .plus, .sign .openParen,
      .number (Number.ofDecimal false 1 0), .sign .closeParen, .sign .closeParen, .sign .closeParen,
      .sign .semicolon] _ :=
    .cons rfl hspace <| .cons hname hblock <| .cons rfl hspace <| .cons rfl hspace <|
    .cons rfl hspace <| .cons htext hspace <| .cons rfl hspace <| .cons rfl hspace <|
    .cons rfl hspace <| .cons hnumber hspace <| .cons rfl hspace <| .cons rfl hspace <|
    .cons rfl hline <| .last rfl
  exact Program.parse_of_spells ⟨false, false⟩ _ rfl ⟨[' '], _, hspace.blank, hspaced, rfl⟩

end ScriptModules
