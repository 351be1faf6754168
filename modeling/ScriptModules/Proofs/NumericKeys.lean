import ScriptModules.Proofs.Escapes
import ScriptModules.Proofs.Numerals
import ScriptModules.Proofs.Variables

/-!
# Numbers as keys

A key in braces may be written as a number. The property is then called what the key is written as,
while the computed access takes the text of the number: `o = { t: v }` makes a property called `t`, and
`o[t]` asks for the text of the number that `t` is read as. So the two mean one property exactly if the
number has this text (`Program.number_key`). Whole numbers below `2 ^ 53` have it when no zero stands
before them, and no number has it that is written with an exponent.

Where the text is another, the access finds nothing (`Program.number_key_missed`), and a write makes a
second property.
-/

namespace ScriptModules

open Grammar Grammar.RuleSet Token

/-! ### Words in a text -/

/-- **The words one after the other, with a gap behind each;** behind the last there may be none. -/
inductive Written : List String → List Char → Prop where
  | last {w : String} : Written [w] w.toList
  | cons {w : String} {ws g s} : Gap g → Written ws s → Written (w :: ws) (w.toList ++ (g ++ s))

/-- The words spell the tokens, one each. -/
abbrev WordsOf (ts : List Token) (ws : List String) : Prop :=
  List.Forall₂ (fun t w => Token.Spelling t w.toList) ts ws

namespace Written

variable {t : Token} {ts us : List Token} {w : String} {ws vs : List String} {s : List Char}

theorem laid (h : Written ws s) (hts : WordsOf ts ws) : Laid ts s [] := by
  induction h generalizing ts with
  | last =>
    cases hts with
    | cons ht hnil =>
      cases hnil
      exact .last ht
  | cons hg _ ih =>
    cases hts with
    | cons ht hts => exact .cons ht hg (ih hts)

theorem split (h : Written (vs ++ ws) s) (hts : WordsOf ts vs) (hus : WordsOf us ws) (hne : ws ≠ []) :
    ∃ k, Laid ts s k ∧ Written ws k := by
  induction hts generalizing s with
  | nil => exact ⟨s, .nil (h.laid hus).solid, h⟩
  | @cons t w ts vs ht hts ih =>
    have hmore : vs ++ ws ≠ [] := List.append_ne_nil_of_right_ne_nil _ hne
    generalize hall : (w :: vs) ++ ws = all at h
    cases h with
    | last => exact absurd (List.cons.inj hall).2 hmore
    | cons hg h =>
      obtain ⟨rfl, rfl⟩ := List.cons.inj hall
      obtain ⟨k, hlaid, hrest⟩ := ih h
      exact ⟨k, .cons ht hg hlaid, hrest⟩

/-- **A number is read as it is written,** if other words follow. -/
theorem numeral_reads (h : Written (w :: ws) s) (hw : script.Takes .numberLiteral w.toList)
    (hts : WordsOf ts ws) (hne : ws ≠ []) :
    ∃ k, script.Reads (.rule .numberLiteral) s k (Sole (WordOf .numberLiteral w.toList)) ∧
      Laid ts k [] := by
  cases h with
  | last => exact absurd rfl hne
  | cons hg h =>
    have hlaid := h.laid hts
    exact ⟨_, Takes.reads tokenRule_staysInside rfl rfl hw (hg.edge _)
      fun n => hlaid.solid.behind_blank hg.blank n, hlaid⟩

/-- Words with a space behind each but the last. -/
theorem intercalate (hne : ws ≠ []) :
    Written ws (List.intercalate [' '] (ws.map String.toList)) := by
  have hspace : Gap [' '] := ⟨.space rfl .nil, ' ', [], rfl, rfl⟩
  induction ws with
  | nil => exact absurd rfl hne
  | cons w ws ih =>
    cases ws with
    | nil =>
      rw [List.map_singleton, List.intercalate_singleton]
      exact .last
    | cons w' ws =>
      have hrest := ih (List.cons_ne_nil w' ws)
      rw [List.map_cons, List.map_cons, List.intercalate_cons_cons, List.append_assoc]
      exact .cons hspace hrest

end Written

/-! ### Reading the statements -/

section

variable {o v t : String} {x : Float} {ts : List Token} {s k m : List Char}

/-- No statement of another kind begins with a name. -/
theorem Laid.name_before (h : Laid (.name o :: ts) s m) :
    ∀ r ∈ statementRules.takeWhile (· ≠ .expressionStatement), script.Fails (.rule r) s := by
  have hbefore : ∀ r ∈ statementRules.takeWhile (· ≠ .expressionStatement),
      Next.name.dismisses (.rule r) = true := by decide +kernel
  exact fun r hr => h.name_looks.fails (hbefore r hr)

/-- A number before a colon is a key, which is called what it is written as. -/
theorem key_of_numeral (hlooks : Looks .number s)
    (h : script.Reads (.rule .numberLiteral) s k (Sole (WordOf .numberLiteral t.toList))) :
    script.Reads keyPattern s k (Sole fun n => keyText n = .ok t) := by
  have hname : script.Fails (.rule .identifierName) s := hlooks.fails (by decide +kernel)
  have htext : script.Fails (.rule .stringLiteral) s := hlooks.fails (by decide +kernel)
  have hread : script.Reads keyPattern s k (Sole (WordOf .numberLiteral t.toList)) :=
    .altSecond hname (.altSecond htext h)
  refine hread.mono ?_
  rintro _ ⟨n, rfl, hn⟩
  have hother : n.rule ≠ .stringLiteral := by
    rw [hn.1]
    decide
  have hkey : keyText n = .ok t := by rw [keyText, if_neg hother, text_of_word hn]
  exact ⟨n, rfl, hkey⟩

/-- **A variable is assigned an object with one property,** in a statement up to its semicolon. -/
theorem object_statement (h : Laid [.name o, .sign .assign, .sign .openBrace] s k) {k' : List Char}
    (hkey : script.Reads keyPattern k k' (Sole fun n => keyText n = .ok t))
    (hmore : Laid (.sign .colon :: .name v :: .sign .closeBrace :: .sign .semicolon :: ts) k' m) :
    ∃ l, script.Reads (.rule .statement) s l (Sole (StmtNode
      (.expression (.assign .set (.name o) (.object [.mk t (.name v)]))))) ∧ Laid ts l m := by
  have hbefore := h.name_before
  obtain ⟨k₁, hname, h⟩ := h.uncons
  obtain ⟨k₂, hassign, hopen⟩ := h.uncons
  obtain ⟨l₁, hcolon, hmore⟩ := hmore.uncons
  obtain ⟨l₂, hvalue, hmore⟩ := hmore.uncons
  obtain ⟨l₃, hclose, hmore⟩ := hmore.uncons
  obtain ⟨l₄, hend, hmore⟩ := hmore.uncons
  have hends : Ends l₂ := hclose.ends (by decide)
  have hread : script.Reads (.rule .expression) l₁ l₂ (Sole (ExprNode (.name v))) :=
    (operand_name (σ := ⟨false, false⟩) v).readable l₁ l₂ hvalue hends
  have hcomma : script.Fails (.lit ",") l₂ := hclose.sign_looks.not_sign .comma (by decide)
  -- the object ends with its first property, as no comma follows
  have hnone : script.ReadsEach (.next (.lit ",") (.rule .property)) PropertyNode [] l₂ l₂ :=
    ⟨rfl, hcomma.next⟩
  have hlist := list_of_commas ((property_of_key hkey hcolon hread).commas hends.solid hnone)
    hends.solid hcomma
  have hobject := object_of_properties hopen hlist hclose (hend.ends (by decide))
  obtain ⟨htarget, -, harrow⟩ := operand_name (σ := ⟨false, false⟩) o s k₁ hname
    (hassign.not_access (by decide)) (hassign.not_arrow (by decide))
  have hwhole := expression_of_assignment .set (.name o) htarget harrow hassign hobject
  exact ⟨l₄, statement_of_expression hbefore hwhole (semicolon_reads hend), hmore⟩

/-- **A number in brackets is a key behind a name.** -/
theorem item_operand
    (h : Laid (.name o :: .sign .openBracket :: .number x :: .sign .closeBracket :: ts) s m) :
    ∃ l, Laid ts l m ∧ script.Fails (.rule .arrowFunction) s ∧
      (script.Fails (.rule .postfixOp) l → script.Reads (.rule .postfix_) s l
        (Sole (OperandNode (.index (.name o) (.literal (.number x)))))) := by
  obtain ⟨k₁, hname, h⟩ := h.uncons
  obtain ⟨k₂, hopen, h⟩ := h.uncons
  obtain ⟨k₃, hnumber, h⟩ := h.uncons
  obtain ⟨k₄, hclose, h⟩ := h.uncons
  have hkey : script.Reads (.rule .expression) k₂ k₃ (Sole (ExprNode (.literal (.number x)))) :=
    readable_literal (σ := ⟨false, false⟩) (.number x) k₂ k₃ hnumber (hclose.ends (by decide))
  exact ⟨k₄, h, name_not_arrow hname (hopen.not_arrow (by decide)), fun haccess =>
    operand_of_access (primary_of_name hname) (access_of_index hopen hkey hclose) haccess hopen.solid⟩

/-- A statement that reads the item, at the end of a text. -/
theorem item_statement
    (h : Laid [.name o, .sign .openBracket, .number x, .sign .closeBracket] s []) :
    script.Reads (.rule .statement) s []
      (Sole (StmtNode (.expression (.index (.name o) (.literal (.number x)))))) := by
  obtain ⟨l, hl, harrow, hread⟩ := item_operand h
  cases hl with
  | nil hsolid =>
    exact statement_of_expression h.name_before
      (expression_of_operand (hread ends_finished.access) (h.name_looks.not (by decide)) harrow
        h.solid ends_finished) semicolon_missing

/-- **The item is assigned,** in a statement up to its semicolon. -/
theorem item_assignment
    (h : Laid (.name o :: .sign .openBracket :: .number x :: .sign .closeBracket :: .sign .assign ::
      .name v :: .sign .semicolon :: ts) s m) :
    ∃ l, script.Reads (.rule .statement) s l (Sole (StmtNode
      (.expression (.assign .set (.index (.name o) (.literal (.number x))) (.name v))))) ∧
      Laid ts l m := by
  obtain ⟨k, hmore, harrow, hread⟩ := item_operand h
  obtain ⟨l₁, hassign, hmore⟩ := hmore.uncons
  obtain ⟨l₂, hvalue, hmore⟩ := hmore.uncons
  obtain ⟨l₃, hend, hmore⟩ := hmore.uncons
  have htarget := hread (hassign.not_access (by decide))
  have hname : script.Reads (.rule .expression) l₁ l₂ (Sole (ExprNode (.name v))) :=
    (operand_name (σ := ⟨false, false⟩) v).readable l₁ l₂ hvalue (hend.ends (by decide))
  have hwhole := expression_of_assignment .set (.index (.name o) (.literal (.number x))) htarget
    harrow hassign hname
  exact ⟨l₃, statement_of_expression h.name_before hwhole (semicolon_reads hend), hmore⟩

/-- A name is a statement, at the end of a text. -/
theorem name_statement (h : Laid [.name o] s []) :
    script.Reads (.rule .statement) s [] (Sole (StmtNode (.expression (.name o)))) :=
  statement_of_expression h.name_before
    ((operand_name (σ := ⟨false, false⟩) o).readable s [] h ends_finished) semicolon_missing

/-! ### Programs -/

/-- A program that assigns an object with one property to a variable, and goes on. -/
def Program.keyed (o t v : String) (rest : List Stmt) : Program :=
  ⟨.expression (.assign .set (.name o) (.object [.mk t (.name v)])) :: rest⟩

/-- **The text of such a program is parsed,** with the key as it is written. -/
theorem Program.parse_keyed {rest : List String} {stmts : List Stmt}
    (h : Written ([o, "=", "\x7b"] ++ t :: ":" :: v :: "\x7d" :: ";" :: rest) s)
    (ho : script.Takes .identifier o.toList) (hv : script.Takes .identifier v.toList)
    (ht : script.Takes .numberLiteral t.toList) (hx : Number.read? t.toList = some x)
    (hts : WordsOf ts rest)
    (hmore : ∀ l, Laid ts l [] → script.ReadsEach (.rule .statement) StmtNode stmts l []) :
    Program.parse (String.ofList s) = .ok (.keyed o t v stmts) := by
  have hbehind : WordsOf (.sign .colon :: .name v :: .sign .closeBrace :: .sign .semicolon :: ts)
      (":" :: v :: "\x7d" :: ";" :: rest) :=
    .cons rfl (.cons ⟨rfl, hv⟩ (.cons rfl (.cons rfl hts)))
  have hbefore : WordsOf [.name o, .sign .assign, .sign .openBrace] [o, "=", "\x7b"] :=
    .cons ⟨rfl, ho⟩ (.cons rfl (.cons rfl .nil))
  have hnumber : (Token.number x).Spelling t.toList := ⟨ht, hx⟩
  obtain ⟨k, hlaid, hrest⟩ := h.split hbefore (.cons hnumber hbehind) (by simp)
  obtain ⟨k', hnumeral, hafter⟩ := hrest.numeral_reads ht hbehind (by simp)
  have hlooks : Looks .number k := (hrest.laid (.cons hnumber hbehind)).number_looks
  obtain ⟨l, hstatement, hl⟩ := object_statement hlaid (key_of_numeral hlooks hnumeral) hafter
  exact Program.parse_of_reads hlaid.solid ⟨l, hstatement, hmore l hl⟩

/-- The program that reads the item behind. -/
theorem Program.parse_keyed_read
    (h : Written ([o, "=", "\x7b"] ++ [t, ":", v, "\x7d", ";", o, "[", t, "]"]) s)
    (ho : script.Takes .identifier o.toList) (hv : script.Takes .identifier v.toList)
    (ht : script.Takes .numberLiteral t.toList) (hx : Number.read? t.toList = some x) :
    Program.parse (String.ofList s) =
      .ok (.keyed o t v [.expression (.index (.name o) (.literal (.number x)))]) := by
  have hts : WordsOf [.name o, .sign .openBracket, .number x, .sign .closeBracket] [o, "[", t, "]"] :=
    .cons ⟨rfl, ho⟩ (.cons rfl (.cons ⟨ht, hx⟩ (.cons rfl .nil)))
  exact parse_keyed h ho hv ht hx hts fun l hl =>
    ⟨[], item_statement hl, rfl, looks_finished.not (by decide)⟩

/-- The program that writes the item behind, and reads the variable. -/
theorem Program.parse_keyed_write {u : String}
    (h : Written ([o, "=", "\x7b"] ++
      [t, ":", v, "\x7d", ";", o, "[", t, "]", "=", u, ";", o]) s)
    (ho : script.Takes .identifier o.toList) (hv : script.Takes .identifier v.toList)
    (hu : script.Takes .identifier u.toList)
    (ht : script.Takes .numberLiteral t.toList) (hx : Number.read? t.toList = some x) :
    Program.parse (String.ofList s) = .ok (.keyed o t v
      [.expression (.assign .set (.index (.name o) (.literal (.number x))) (.name u)),
        .expression (.name o)]) := by
  have hts : WordsOf [.name o, .sign .openBracket, .number x, .sign .closeBracket, .sign .assign,
      .name u, .sign .semicolon, .name o] [o, "[", t, "]", "=", u, ";", o] :=
    .cons ⟨rfl, ho⟩ (.cons rfl (.cons ⟨ht, hx⟩ (.cons rfl (.cons rfl (.cons ⟨rfl, hu⟩ (.cons rfl
      (.cons ⟨rfl, ho⟩ .nil)))))))
  refine parse_keyed h ho hv ht hx hts fun l hl => ?_
  obtain ⟨k, hassign, hk⟩ := item_assignment hl
  exact ⟨k, hassign, [], name_statement hk, rfl, looks_finished.not (by decide)⟩

end

/-! ### Running them -/

section

variable {W : World} {s : Ref .scope} {o v u key : String} {a b : Value}

/-- A variable is declared under the name, and has the value. -/
def World.Means (W : World) (s : Ref .scope) (name : String) (a : Value) : Prop :=
  ∃ r constant, W.declaration? s name = some (r, ⟨a, constant⟩)

/-- The name can be assigned to: no constant is declared under it. -/
def World.Assignable (W : World) (s : Ref .scope) (name : String) : Prop :=
  ∀ r x, W.declaration? s name = some (r, x) → x.constant = false

theorem World.Means.lookup (h : W.Means s v a) : Run.lookup s v W = (.done a, W) := by
  obtain ⟨r, constant, hd⟩ := h
  exact lookup_of_declaration? hd

/-- An expression before other statements is run for its effects, -/
theorem Stmt.runAll_before {call : CallSemantics} {e : Expr} {next : Stmt} {rest : List Stmt}
    {W' : World} (h : e.eval call s W = (.done a, W')) :
    Stmt.runAll call s (.expression e :: next :: rest) W = Stmt.runAll call s (next :: rest) W' := by
  have hexec : (Stmt.expression e).exec call s W = (.done .normal, W') := Run.bind_of_done h
  exact Run.bind_of_done hexec

/-- and the last one for its value. -/
theorem Stmt.runAll_last {call : CallSemantics} {e : Expr} {W' : World}
    (h : e.eval call s W = (.done a, W')) (he : e.isAssignment = false) :
    Stmt.runAll call s [.expression e] W = (.done a, W') := by
  refine (Run.bind_of_done h).trans ?_
  rw [he]
  rfl

/-- **A variable is assigned a new object with one property.** -/
theorem Expr.eval_assign_object (call : CallSemantics) (hW : W.Formed) (hs : s.row < W.scopes.size)
    (hv : W.Means s v a) (ho : W.Assignable s o) (key : String) :
    ∃ q W', (Expr.assign .set (.name o) (.object [.mk key (.name v)])).eval call s W =
        (.done (.object q), W') ∧
      W'.Means s o (.object q) ∧ W'.objects.get? q = some { properties := ⟨[(key, a)]⟩ } ∧
      ∀ name b, name ≠ o → W.Means s name b → W'.Means s name b := by
  let W₁ : World :=
    { W with objects := W.objects.add { properties := .ofList [(key, a)] } }
  have hobject : Expr.eval call s (.object [.mk key (.name v)]) W =
      (.done (.object W.objects.fresh), W₁) := by
    have hlist : Property.evalAll call s [.mk key (.name v)] W = (.done [(key, a)], W) :=
      Run.bind_of_done hv.lookup
    exact Run.bind_of_done hlist
  have hscopes : W₁.scopes = W.scopes := rfl
  have hmeans : ∀ name, W₁.declaration? s name = W.declaration? s name :=
    World.declaration?_of_scopes_eq hscopes s
  -- making the object leaves scopes alone, so the variable is found where it was
  have hW₁ : W₁.Formed := hW.of_samePlaces ⟨rfl, fun _ => rfl, fun _ _ => id⟩
  refine ⟨W.objects.fresh, W₁.setVariable (W₁.home s o) o ⟨.object W.objects.fresh, false⟩, ?_,
    ?_, Table.get?_add_fresh _ _, fun name b hne hb => ?_⟩
  · rcases Run.assign_eq s o (.object W.objects.fresh) W₁ with ⟨hrun, -⟩ | ⟨r, x, hd, hconstant, -⟩
    · exact (Run.bind_of_done hobject).trans (Run.bind_of_done hrun)
    · rw [hmeans] at hd
      rw [ho r x hd] at hconstant
      cases hconstant
  · have hstored := hW₁.declaration?_store_home hs hs o ⟨.object W.objects.fresh, false⟩
    rw [if_pos rfl] at hstored
    exact ⟨_, _, hstored⟩
  · obtain ⟨r, constant, hd⟩ := hb
    exact ⟨r, constant, (hW₁.declaration?_setVariable_of_ne (Ne.symm hne) hs).trans
      ((hmeans name).trans hd)⟩

/-- The value under the one key, if that is asked for. -/
theorem get?_single (key key' : String) (a : Value) :
    (⟨[(key, a)]⟩ : OrderedMap Value).get? key' = if key = key' then some a else none := rfl

theorem Expr.eval_item (call : CallSemantics) {q : Ref .object} {x : Float}
    (ho : W.Means s o (.object q))
    (hq : W.objects.get? q = some { properties := ⟨[(key, a)]⟩ }) :
    (Expr.index (.name o) (.literal (.number x))).eval call s W =
      (.done (if Number.text x = key then a else .undefined), W) := by
  have hread : (Run.getMember (.object q) (Number.text x)) W =
      (.done (if Number.text x = key then a else .undefined), W) := by
    have hmember : ((W.object q).properties.get? (Number.text x)).getD .undefined =
        if Number.text x = key then a else .undefined := by
      have hobject : W.object q = { properties := ⟨[(key, a)]⟩ } := by
        rw [World.object, hq]
        rfl
      rw [hobject, get?_single]
      by_cases hkey : Number.text x = key
      · rw [if_pos hkey, if_pos hkey.symm]
        rfl
      · rw [if_neg hkey, if_neg (Ne.symm hkey)]
        rfl
    exact congrArg (fun v => (Outcome.done v, W)) hmember
  exact (Run.bind_of_done ho.lookup).trans hread

/-- **A write overwrites the property if the number has the text of the key,** and makes a second one
if not. -/
theorem Expr.eval_assign_item (call : CallSemantics) {q : Ref .object} {x : Float}
    (ho : W.Means s o (.object q)) (hu : W.Means s u b)
    (hq : W.objects.get? q = some { properties := ⟨[(key, a)]⟩ }) :
    ∃ W', (Expr.assign .set (.index (.name o) (.literal (.number x))) (.name u)).eval call s W =
        (.done b, W') ∧ W'.Means s o (.object q) ∧
      (W'.object q).properties.entries =
        if Number.text x = key then [(key, b)] else [(key, a), (Number.text x, b)] := by
  refine ⟨W.setProperty q (Number.text x) b, ?_, ?_, ?_⟩
  · exact (Run.bind_of_done ho.lookup).trans (Run.bind_of_done hu.lookup)
  · obtain ⟨r, constant, hd⟩ := ho
    have hscopes := (World.setProperty_quiet W q (Number.text x) b).scopes
    exact ⟨r, constant, (World.declaration?_of_scopes_eq hscopes s o).trans hd⟩
  · have hobject : W.object q = { properties := ⟨[(key, a)]⟩ } := by
      rw [World.object, hq]
      rfl
    have hwritten : (W.setProperty q (Number.text x) b).objects.get? q =
        some { properties := (⟨[(key, a)]⟩ : OrderedMap Value).insert (Number.text x) b } := by
      rw [World.setProperty, hobject, World.notify, Table.get?_update, if_pos rfl, hq]
      rfl
    rw [World.object, hwritten]
    change OrderedMap.put (Number.text x) b [(key, a)] = _
    rw [OrderedMap.put, OrderedMap.put]
    by_cases hkey : Number.text x = key
    · rw [if_pos hkey, if_pos hkey.symm]
    · rw [if_neg hkey, if_neg (Ne.symm hkey)]

end

/-! ### The main statement -/

/-- What the grammar takes for a number is read as one. -/
theorem exists_read_of_takes {t : List Char} (ht : script.Takes .numberLiteral t) :
    ∃ x, Number.read? t = some x := by
  obtain ⟨o, ns, h⟩ := Takes.body rfl ht
  obtain ⟨x, hx⟩ := number_readable h
  have hchars := h.chars_node (List.append_nil t).symm .numberLiteral ns
  exact ⟨x, hchars ▸ hx⟩

/-- **Wherever a number stands in a text, it is a key by what is written,** and an expression by the
number that is read. -/
theorem numeral_of_matched {k : Nat} {c c' : Cursor} {n : Node Rule} {acc : Attempts Rule}
    (h : (script.run k .loose (.rule .numberLiteral) c acc).1 = .matched c' [n]) :
    keyText n = .ok n.text ∧ ∃ x, Number.read? n.chars = some x ∧
      Expr.ofNode n = .ok (.literal (.number x)) := by
  have hagrees := (script.run_agrees k).1 .loose (.rule .numberLiteral) c acc
  rw [h] at hagrees
  have hcomes : script.Comes .loose (.rule .numberLiteral) c (some (c', [n])) := hagrees
  clear h hagrees
  generalize hns : [n] = ns at hcomes
  cases hcomes with
  | @rule _ _ _ _ ns h =>
    obtain ⟨x, hx⟩ := number_readable h
    obtain rfl : n = .mk .numberLiteral c c'.offset ns := (List.cons.inj hns).1
    refine ⟨rfl, x, hx, ?_⟩
    have hleaf : (Node.mk Rule.numberLiteral c c'.offset ns).rule ∈ leafRules :=
      (by decide : Rule.numberLiteral ∈ leafRules)
    rw [ofNode_leaf hleaf, leaf]
    simp only [Node.rule, hx]

/-- **When a number as a key means what the number means.** The property that `o = { t: v }` makes is
the one that `o[t]` reads, and the one that `o[t] = u` overwrites, exactly if the number that `t` is read
as has `t` for its text. Otherwise nothing is read, and a second property is made.

It has this text if `t` is a whole number below `2 ^ 53` without a zero before it, and it does not have
it if `t` has an exponent. -/
theorem Program.number_key (t : String) (ht : script.Takes .numberLiteral t.toList) :
    ∃ x, Number.read? t.toList = some x ∧
      (∀ n < 2 ^ 53, t.toList = Nat.toDigits 10 n → Number.text x = t) ∧
      ('e' ∈ t.toList ∨ 'E' ∈ t.toList → Number.text x ≠ t) ∧
      (∀ k c c' acc n, (script.run k .loose (.rule .numberLiteral) c acc).1 = .matched c' [n] →
        n.text = t → keyText n = .ok t ∧ Expr.ofNode n = .ok (.literal (.number x))) ∧
      ∀ o v u : String, script.Takes .identifier o.toList → script.Takes .identifier v.toList →
        script.Takes .identifier u.toList →
        (∀ text, Written [o, "=", "\x7b", t, ":", v, "\x7d", ";", o, "[", t, "]"] text →
          ∃ p, Program.parse (String.ofList text) = .ok p ∧
            ∀ call s W a, W.Formed → s.row < W.scopes.size → W.Means s v a → W.Assignable s o →
              ∃ W', p.run call s W = (.done (if Number.text x = t then a else .undefined), W')) ∧
        (∀ text, Written [o, "=", "\x7b", t, ":", v, "\x7d", ";", o, "[", t, "]", "=", u, ";", o] text →
          ∃ p, Program.parse (String.ofList text) = .ok p ∧
            ∀ call s W a b, W.Formed → s.row < W.scopes.size → W.Means s v a → W.Means s u b →
              u ≠ o → W.Assignable s o →
              ∃ q W', p.run call s W = (.done (.object q), W') ∧
                (W'.object q).properties.entries =
                  if Number.text x = t then [(t, b)] else [(t, a), (Number.text x, b)]) := by
  obtain ⟨x, hx⟩ := exists_read_of_takes ht
  refine ⟨x, hx, fun n hn hdigits => ?_, fun hexponent hsame => ?_,
    fun k c c' acc n hmatched htext => ?_, fun o v u ho hv hu =>
      ⟨fun text htext => ?_, fun text htext => ?_⟩⟩
  · -- digits without a zero before them are those that the number is written with
    obtain ⟨y, hy, hsame⟩ := Number.text_of_read_toDigits hn
    rw [← hdigits] at hy hsame
    obtain rfl := Option.some.inj (hx.symm.trans hy)
    exact hsame.trans String.ofList_toList
  · obtain ⟨hsmall, hlarge⟩ := Number.text_without_exponent x
    rw [hsame] at hsmall hlarge
    exact hexponent.elim hsmall hlarge
  · obtain ⟨hkey, y, hy, hexpr⟩ := numeral_of_matched hmatched
    have hchars : n.chars = t.toList := by rw [← htext, Node.text, String.toList_ofList]
    rw [hchars] at hy
    obtain rfl := Option.some.inj (hx.symm.trans hy)
    exact ⟨htext ▸ hkey, hexpr⟩
  · refine ⟨_, Program.parse_keyed_read htext ho hv ht hx, fun call s W a hW hs ha hfree => ?_⟩
    obtain ⟨q, W₁, hassign, hq, hobject, -⟩ := Expr.eval_assign_object call hW hs ha hfree t
    have hitem := Expr.eval_item call (x := x) hq hobject
    exact ⟨W₁, (Stmt.runAll_before hassign).trans (Stmt.runAll_last hitem rfl)⟩
  · refine ⟨_, Program.parse_keyed_write htext ho hv hu ht hx,
      fun call s W a b hW hs ha hb hne hfree => ?_⟩
    obtain ⟨q, W₁, hassign, hq, hobject, hkept⟩ := Expr.eval_assign_object call hW hs ha hfree t
    obtain ⟨W₂, hwrite, hq₂, hentries⟩ :=
      Expr.eval_assign_item call (x := x) hq (hkept u b hne hb) hobject
    exact ⟨q, W₂, (Stmt.runAll_before hassign).trans ((Stmt.runAll_before hwrite).trans
      (Stmt.runAll_last (e := .name o) hq₂.lookup rfl)), hentries⟩

/-- **A number with an exponent is lost as a key:** what it is written as is the name of a property that
the number does not mean, so nothing is read, and a write makes another property. -/
theorem Program.number_key_missed :
    (Engine.compiling.evaluate (Machine.ofFuel 1).call "test.js"
      "var o = \x7b 1e3: 'v' \x7d; typeof o[1e3]" {} .empty).1.value?.bind Value.asText? =
        some "undefined" ∧
    (Engine.compiling.evaluate (Machine.ofFuel 1).call "test.js"
      "var o = \x7b 1e3: 'v' \x7d; o[1e3] = 'w'; o['1e3'] + o['1000']" {} .empty).1.value?.bind
        Value.asText? = some "vw" := by
  constructor <;> decide +kernel

/-- A root scope with two variables. -/
def World.twoVariables : World :=
  World.empty.addHeap.addScope { Scope.root {} ⟨0⟩ with
    locals := .ofList [("v", ⟨.text "a", false⟩), ("w", ⟨.text "b", false⟩)] }

theorem World.twoVariables_formed : World.twoVariables.Formed :=
  World.empty_formed.addHeap.addScope nofun

/-- The key `7` is read back, and overwritten. -/
theorem Program.number_key_seven :
    (∃ p W', Program.parse "o = \x7b 7 : v \x7d ; o [ 7 ]" = .ok p ∧
      p.run (Machine.ofFuel 1).call ⟨0⟩ World.twoVariables = (.done (.text "a"), W')) ∧
    ∃ p q W', Program.parse "o = \x7b 7 : v \x7d ; o [ 7 ] = w ; o" = .ok p ∧
      p.run (Machine.ofFuel 1).call ⟨0⟩ World.twoVariables = (.done (.object q), W') ∧
      (W'.object q).properties.entries = [("7", .text "b")] := by
  obtain ⟨x, -, hwhole, -, -, hruns⟩ := Program.number_key "7" (by decide +kernel)
  have hsame : Number.text x = "7" := hwhole 7 (by decide) (by decide)
  obtain ⟨hread, hwrite⟩ := hruns "o" "v" "w" (by decide +kernel) (by decide +kernel)
    (by decide +kernel)
  have hv : World.twoVariables.Means ⟨0⟩ "v" (.text "a") := ⟨_, _, rfl⟩
  have hw : World.twoVariables.Means ⟨0⟩ "w" (.text "b") := ⟨_, _, rfl⟩
  have ho : World.twoVariables.Assignable ⟨0⟩ "o" := fun r y hd => nomatch hd
  obtain ⟨p, hp, hrun⟩ := hread _ (Written.intercalate (by decide))
  obtain ⟨p', hp', hrun'⟩ := hwrite _ (Written.intercalate (by decide))
  obtain ⟨W₁, h₁⟩ := hrun _ _ _ _ World.twoVariables_formed (by decide) hv ho
  obtain ⟨q, W₂, h₂, hentries⟩ :=
    hrun' _ _ _ _ _ World.twoVariables_formed (by decide) hv hw (by decide) ho
  rw [if_pos hsame] at h₁ hentries
  exact ⟨⟨p, W₁, hp, h₁⟩, p', q, W₂, hp', h₂, hentries⟩

end ScriptModules
