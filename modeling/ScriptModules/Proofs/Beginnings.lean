import ScriptModules.Proofs.Tokens

/-!
# What tokens begin

Two tables about the grammar, each checked by looking ahead: rules that do not begin with a token,
and rules that match exactly a sign. Where alternatives are tried in order, these settle which of
them is taken.
-/

namespace ScriptModules

open Grammar Grammar.RuleSet

/-! ### Signs -/

/-- Signs that end an expression. -/
def closers : List Sign := [.closeParen, .closeBracket, .closeBrace, .comma, .colon, .semicolon]

/-- Signs that go on with an expression behind an operand. -/
def operators : List Sign :=
  [.question, .or, .and, .strictEq, .strictNe, .eq, .ne, .le, .ge, .lt, .gt, .plus, .minus, .times,
    .divided, .percent]

/-- Signs that assign. -/
def assigners : List Sign := [.assign, .addAssign, .subAssign]

/-- Signs that go on with an operand. -/
def accessors : List Sign := [.dot, .openBracket, .openParen]

/-- The operators between operands, in the order in which they are tried. -/
def infixRules : List (Rule × Sign) := [(.or, .or), (.and, .and), (.strictEq, .strictEq),
  (.strictNe, .strictNe), (.eq, .eq), (.ne, .ne), (.le, .le), (.ge, .ge), (.lt, .lt), (.gt, .gt),
  (.add, .plus), (.sub, .minus), (.mul, .times), (.div, .divided), (.rem, .percent)]

/-! ### The tables -/

/-- Tokens, and rules that begin with none of them. -/
def exclusions : List (List Next × List Rule) := [
  (closers.map .sign,
    [.assignOp, .postfixOp, .infixOp, .prefixOp, .expression, .identifier, .property, .kwElse]),
  (operators.map .sign, [.assignOp, .postfixOp]),
  ([.sign .question], [.infixOp]),
  (assigners.map .sign, [.postfixOp]),
  ([.sign .closeBrace, .finished], [.statement, .kwElse]),
  ([.sign .openParen, .name], [.functionExpression, .arrayLiteral, .objectLiteral, .numberLiteral,
    .stringLiteral, .booleanLiteral, .nullLiteral, .undefinedLiteral, .thisExpression, .prefixOp]),
  ([.sign .openParen], [.identifier, .functionBody, .functionDeclaration, .variableStatement,
    .returnStatement, .ifStatement, .throwStatement, .block, .emptyStatement, .kwElse]),
  ([.sign .dot, .sign .openBracket], [.callArguments]),
  ([.sign .openBracket], [.memberDot]),
  -- what else an operand begins with
  ([.sign .openBracket, .sign .openBrace, .number, .text, .sign .undefinedWord, .sign .nullWord,
    .sign .trueWord, .sign .falseWord, .sign .thisWord],
    [.functionExpression, .prefixOp, .arrowFunction, .identifier]),
  ([.sign .functionWord], [.prefixOp, .arrowFunction, .identifier]),
  ([.sign .openBrace, .number, .text, .sign .undefinedWord, .sign .nullWord, .sign .trueWord,
    .sign .falseWord, .sign .thisWord], [.arrayLiteral]),
  ([.number, .text, .sign .undefinedWord, .sign .nullWord, .sign .trueWord, .sign .falseWord,
    .sign .thisWord], [.objectLiteral]),
  ([.text, .sign .undefinedWord, .sign .nullWord, .sign .trueWord, .sign .falseWord,
    .sign .thisWord], [.numberLiteral]),
  ([.sign .undefinedWord, .sign .nullWord, .sign .trueWord, .sign .falseWord, .sign .thisWord],
    [.stringLiteral]),
  ([.sign .undefinedWord, .sign .nullWord, .sign .thisWord], [.booleanLiteral]),
  ([.sign .undefinedWord, .sign .thisWord], [.nullLiteral]),
  ([.sign .thisWord], [.undefinedLiteral]),
  ([.text], [.identifierName]),
  -- operators before an operand
  ([.sign .not, .sign .minus, .sign .typeofWord], [.arrowFunction, .assignment, .identifier]),
  ([.sign .minus, .sign .typeofWord], [.not]),
  ([.sign .typeofWord], [.neg]),
  -- statements
  ([.sign .openBrace, .sign .semicolon, .sign .varWord, .sign .letWord, .sign .constWord,
    .sign .returnWord, .sign .ifWord, .sign .throwWord], [.functionDeclaration, .kwElse]),
  ([.sign .functionWord], [.kwElse]),
  ([.sign .openBrace, .sign .semicolon, .sign .returnWord, .sign .ifWord, .sign .throwWord],
    [.variableStatement]),
  ([.sign .openBrace, .sign .semicolon, .sign .ifWord, .sign .throwWord], [.returnStatement]),
  ([.sign .openBrace, .sign .semicolon, .sign .throwWord], [.ifStatement]),
  ([.sign .openBrace, .sign .semicolon], [.throwStatement]),
  ([.sign .semicolon], [.block])]

/-- Tokens, and signs that none of them begins with. -/
def absences : List (List Next × List Sign) := [
  ((closers ++ operators ++ assigners ++ accessors).map .sign, [.arrow]),
  (closers.map .sign, [.question, .assign]),
  ([.sign .closeParen, .sign .closeBracket, .sign .closeBrace, .sign .semicolon], [.comma]),
  (assigners.map .sign, [.comma, .closeParen]),
  ([.sign .openParen, .sign .openBracket, .sign .openBrace, .sign .functionWord, .number, .text,
    .sign .undefinedWord, .sign .nullWord, .sign .trueWord, .sign .falseWord, .sign .thisWord,
    .sign .not, .sign .minus, .sign .typeofWord], [.closeParen])]

/-- Rules that match exactly a sign, and leave a node. -/
def acceptances : List (Rule × Sign) := infixRules ++ [
  (.not, .not), (.neg, .minus), (.typeofOp, .typeofWord), (.assignOp, .assign),
  (.assignOp, .addAssign), (.assignOp, .subAssign), (.undefinedLiteral, .undefinedWord),
  (.nullLiteral, .nullWord), (.booleanLiteral, .trueWord), (.booleanLiteral, .falseWord),
  (.thisExpression, .thisWord), (.kwFunction, .functionWord), (.varKind, .varWord),
  (.varKind, .letWord), (.varKind, .constWord), (.kwReturn, .returnWord), (.kwIf, .ifWord),
  (.kwElse, .elseWord), (.kwThrow, .throwWord)]

theorem exclusions_dismissed :
    ∀ x ∈ exclusions, ∀ n ∈ x.1, ∀ r ∈ x.2, n.dismisses (.rule r) = true := by
  decide +kernel

theorem absences_dismissed :
    ∀ x ∈ absences, ∀ n ∈ x.1, ∀ w ∈ x.2, n.dismisses (.lit w.text) = true := by
  decide +kernel

theorem acceptances_accepted : ∀ x ∈ acceptances, accepts x.1 x.2 = true := by
  decide +kernel

/-- Operators that are tried earlier do not match a sign that another accepts. -/
theorem infixRules_in_order : ∀ x ∈ infixRules,
    ∀ r ∈ (infixRules.map Prod.fst).takeWhile (· ≠ x.1), (Next.sign x.2).dismisses (.rule r) = true := by
  decide +kernel

/-! ### Reading them -/

/-- Whether the table says that the rule does not begin so. -/
def Next.excludes (n : Next) (r : Rule) : Bool :=
  exclusions.any fun x => x.1.contains n && x.2.contains r

/-- Whether the table says that the sign does not stand there. -/
def Next.lacksSign (n : Next) (w : Sign) : Bool :=
  absences.any fun x => x.1.contains n && x.2.contains w

section

variable {n : Next} {s m : List Char}

/-- **The rule does not begin with this token.** -/
theorem Looks.not {r : Rule} (h : Looks n s) (hr : n.excludes r = true) :
    script.Fails (.rule r) s := by
  obtain ⟨x, hx, hboth⟩ := List.any_eq_true.1 hr
  obtain ⟨hn, hr⟩ := Bool.and_eq_true_iff.1 hboth
  exact h.fails (exclusions_dismissed x hx n (List.contains_iff_mem.1 hn) r
    (List.contains_iff_mem.1 hr))

/-- **The sign does not stand where this token does.** -/
theorem Looks.not_sign (h : Looks n s) (w : Sign) (hw : n.lacksSign w = true) :
    script.Fails (.lit w.text) s := by
  obtain ⟨x, hx, hboth⟩ := List.any_eq_true.1 hw
  obtain ⟨hn, hw⟩ := Bool.and_eq_true_iff.1 hboth
  exact h.fails (absences_dismissed x hx n (List.contains_iff_mem.1 hn) w
    (List.contains_iff_mem.1 hw))

/-- The first of several rules that the table does not exclude. -/
theorem Looks.first {r r₀ : Rule} {rs : List Rule} {P : List (Node Rule) → Prop} (h : Looks n s)
    (hread : script.Reads (.rule r) s m P) (hr : r ∈ r₀ :: rs)
    (hbefore : ((r₀ :: rs).takeWhile (· ≠ r)).all n.excludes = true) :
    script.Reads (.first (.rule r₀) (rs.map .rule)) s m P :=
  hread.first hr fun x hx => h.not (List.all_eq_true.1 hbefore x hx)

/-- A rule reads a sign that it accepts. -/
theorem Laid.accepted_reads {w : Sign} {r : Rule} (h : Laid [.sign w] s m)
    (hr : (r, w) ∈ acceptances) : script.Reads (.rule r) s m (Sole (WordOf r w.chars)) :=
  h.sign_reads (acceptances_accepted _ hr)

end

end ScriptModules
