import ScriptModules.Proofs.Tokens

/-!
# Printing trees

The tokens of a tree. Every expression inside another stands in parentheses, and so does every
expression that a statement has; keys are texts between quotes, and a statement that may end with a
semicolon does. The two places where a `Style` may leave parentheses away are the target of an
assignment and the test of an `if`, which has its own.

Not every tree has a text. `Expr.writable` leaves out declarations of nothing, constants without an
initial value, and alternatives that another `if` would take for itself.
-/

namespace ScriptModules

/-! ### Signs -/

/-- The sign of an operator before an operand. -/
def UnaryOp.sign : UnaryOp → Sign
  | .not => .not
  | .minus => .minus
  | .typeOf => .typeofWord

/-- The sign of an operator between operands. -/
def InfixOp.sign : InfixOp → Sign
  | .logical .or => .or
  | .logical .and => .and
  | .binary .strictlyEqual => .strictEq
  | .binary .strictlyUnequal => .strictNe
  | .binary .equal => .eq
  | .binary .notEqual => .ne
  | .binary .lessThan => .lt
  | .binary .lessThanEqual => .le
  | .binary .greaterThan => .gt
  | .binary .greaterThanEqual => .ge
  | .binary .add => .plus
  | .binary .subtract => .minus
  | .binary .multiply => .times
  | .binary .divide => .divided
  | .binary .remainder => .percent

/-- The sign of a way to assign. -/
def AssignOp.sign : AssignOp → Sign
  | .set => .assign
  | .add => .addAssign
  | .subtract => .subAssign

/-- The word that introduces variables. -/
def DeclarationKind.word : DeclarationKind → Sign
  | .var => .varWord
  | .let => .letWord
  | .const => .constWord

/-! ### Groups of tokens -/

namespace Token

/-- In parentheses. -/
def wrap (ts : List Token) : List Token := sign .openParen :: (ts ++ [sign .closeParen])

/-- In braces. -/
def braces (ts : List Token) : List Token := sign .openBrace :: (ts ++ [sign .closeBrace])

/-- Items, each behind a comma. -/
def following : List (List Token) → List Token
  | [] => []
  | ts :: rest => sign .comma :: (ts ++ following rest)

/-- Items with commas between. -/
def separated : List (List Token) → List Token
  | [] => []
  | ts :: rest => ts ++ following rest

/-- Names with commas between, in parentheses. -/
def params (names : List String) : List Token := wrap (separated (names.map fun x => [name x]))

end Token

/-- Where parentheses are left open when a tree is printed. -/
structure Style where
  /-- Whether targets of assignments stand in parentheses. -/
  wrapsTargets : Bool
  /-- Whether tests stand in parentheses of their own. -/
  wrapsTests : Bool

open Token (wrap braces separated params)

/-- The token of a constant. -/
def Literal.token : Literal → Token
  | .undefined => .sign .undefinedWord
  | .null => .sign .nullWord
  | .boolean true => .sign .trueWord
  | .boolean false => .sign .falseWord
  | .number x => .number x
  | .text s => .text s

/-- In parentheses, if the style says so. -/
def wrapIf (wraps : Bool) (ts : List Token) : List Token := if wraps then wrap ts else ts

mutual

/-- **The tokens of an expression,** without parentheses around it. -/
def Expr.tokens (σ : Style) : Expr → List Token
  | .literal l => [l.token]
  | .name x => [.name x]
  | .this => [.sign .thisWord]
  | .list items => .sign .openBracket :: (separated (Expr.tokensAll σ items) ++ [.sign .closeBracket])
  | .object properties => braces (separated (Property.tokensAll σ properties))
  | .function none ps body => .sign .functionWord :: (params ps ++ braces (Stmt.tokensAll σ body))
  | .function (some x) ps body =>
    .sign .functionWord :: .name x :: (params ps ++ braces (Stmt.tokensAll σ body))
  | .arrow ps body => params ps ++ (.sign .arrow :: body.tokens σ)
  | .unary op e => .sign op.sign :: wrap (e.tokens σ)
  | .binary op l r => wrap (l.tokens σ) ++ (.sign (InfixOp.binary op).sign :: wrap (r.tokens σ))
  | .logical op l r => wrap (l.tokens σ) ++ (.sign (InfixOp.logical op).sign :: wrap (r.tokens σ))
  | .conditional test c a =>
    wrap (test.tokens σ) ++ (.sign .question :: (wrap (c.tokens σ) ++ (.sign .colon :: wrap (a.tokens σ))))
  | .assign op t e => wrapIf σ.wrapsTargets (t.tokens σ) ++ (.sign op.sign :: wrap (e.tokens σ))
  | .member e k => wrap (e.tokens σ) ++ [.sign .dot, .key k]
  | .index e k => wrap (e.tokens σ) ++ (.sign .openBracket :: (wrap (k.tokens σ) ++ [.sign .closeBracket]))
  | .call e args => wrap (e.tokens σ) ++ wrap (separated (Expr.tokensAll σ args))

/-- The tokens of expressions, each in parentheses. -/
def Expr.tokensAll (σ : Style) : List Expr → List (List Token)
  | [] => []
  | e :: rest => wrap (e.tokens σ) :: Expr.tokensAll σ rest

/-- The tokens of what is assigned to. -/
def Target.tokens (σ : Style) : Target → List Token
  | .name x => [.name x]
  | .member e k => wrap (e.tokens σ) ++ [.sign .dot, .key k]
  | .index e k => wrap (e.tokens σ) ++ (.sign .openBracket :: (wrap (k.tokens σ) ++ [.sign .closeBracket]))

/-- The tokens of a property. -/
def Property.tokens (σ : Style) : Property → List Token
  | .mk k e => .text k :: .sign .colon :: wrap (e.tokens σ)

/-- The tokens of properties. -/
def Property.tokensAll (σ : Style) : List Property → List (List Token)
  | [] => []
  | p :: rest => p.tokens σ :: Property.tokensAll σ rest

/-- The tokens of what an arrow function does. -/
def Body.tokens (σ : Style) : Body → List Token
  | .block ss => braces (Stmt.tokensAll σ ss)
  | .value e => wrap (e.tokens σ)

/-- **The tokens of a statement.** -/
def Stmt.tokens (σ : Style) : Stmt → List Token
  | .expression e => wrap (e.tokens σ) ++ [.sign .semicolon]
  | .declare kind ds => .sign kind.word :: (separated (Declarator.tokensAll σ ds) ++ [.sign .semicolon])
  | .function x ps body =>
    .sign .functionWord :: .name x :: (params ps ++ braces (Stmt.tokensAll σ body))
  | .ret none => [.sign .returnWord, .sign .semicolon]
  | .ret (some e) => .sign .returnWord :: (wrap (e.tokens σ) ++ [.sign .semicolon])
  | .ifElse test c none =>
    .sign .ifWord :: (wrap (wrapIf σ.wrapsTests (test.tokens σ)) ++ c.tokens σ)
  | .ifElse test c (some a) =>
    .sign .ifWord :: (wrap (wrapIf σ.wrapsTests (test.tokens σ)) ++
      (c.tokens σ ++ (.sign .elseWord :: a.tokens σ)))
  | .throw e => .sign .throwWord :: (wrap (e.tokens σ) ++ [.sign .semicolon])
  | .block ss => braces (Stmt.tokensAll σ ss)
  | .empty => [.sign .semicolon]

/-- The tokens of statements. -/
def Stmt.tokensAll (σ : Style) : List Stmt → List Token
  | [] => []
  | s :: rest => s.tokens σ ++ Stmt.tokensAll σ rest

/-- The tokens of a declared name. -/
def Declarator.tokens (σ : Style) : Declarator → List Token
  | .mk x none => [.name x]
  | .mk x (some e) => .name x :: .sign .assign :: wrap (e.tokens σ)

/-- The tokens of declared names. -/
def Declarator.tokensAll (σ : Style) : List Declarator → List (List Token)
  | [] => []
  | d :: rest => d.tokens σ :: Declarator.tokensAll σ rest

end

/-- **The tokens of a program.** -/
def Program.tokens (σ : Style) (p : Program) : List Token := Stmt.tokensAll σ p.body

/-- What is assigned to is printed as the expression that reads it. -/
theorem Target.tokens_toExpr (σ : Style) (t : Target) : t.toExpr.tokens σ = t.tokens σ := by
  cases t <;> rfl

/-! ### Trees that have a text -/

/-- Whether an `else` behind the statement would belong to an `if` at its end. -/
def Stmt.endsOpen : Stmt → Bool
  | .ifElse _ _ none => true
  | .ifElse _ _ (some a) => a.endsOpen
  | _ => false

mutual

/-- **Whether the expression has a text:** declarations in it declare something, constants with an
initial value, and no alternative stands behind an `if` that would take it. -/
def Expr.writable : Expr → Bool
  | .literal _ | .name _ | .this => true
  | .list items => Expr.allWritable items
  | .object properties => Property.allWritable properties
  | .function _ _ body => Stmt.allWritable body
  | .arrow _ body => body.writable
  | .unary _ e => e.writable
  | .binary _ l r => l.writable && r.writable
  | .logical _ l r => l.writable && r.writable
  | .conditional test c a => test.writable && c.writable && a.writable
  | .assign _ t e => t.writable && e.writable
  | .member e _ => e.writable
  | .index e k => e.writable && k.writable
  | .call e args => e.writable && Expr.allWritable args

/-- Whether all of the expressions have a text. -/
def Expr.allWritable : List Expr → Bool
  | [] => true
  | e :: rest => e.writable && Expr.allWritable rest

/-- Whether what is assigned to has a text. -/
def Target.writable : Target → Bool
  | .name _ => true
  | .member e _ => e.writable
  | .index e k => e.writable && k.writable

/-- Whether the property has a text. -/
def Property.writable : Property → Bool
  | .mk _ e => e.writable

/-- Whether all of the properties have a text. -/
def Property.allWritable : List Property → Bool
  | [] => true
  | p :: rest => p.writable && Property.allWritable rest

/-- Whether what an arrow function does has a text. -/
def Body.writable : Body → Bool
  | .block ss => Stmt.allWritable ss
  | .value e => e.writable

/-- Whether the statement has a text. -/
def Stmt.writable : Stmt → Bool
  | .expression e => e.writable
  | .declare kind ds => !ds.isEmpty && Declarator.allWritable kind ds
  | .function _ _ body => Stmt.allWritable body
  | .ret none => true
  | .ret (some e) => e.writable
  | .ifElse test c none => test.writable && c.writable
  | .ifElse test c (some a) => test.writable && c.writable && !c.endsOpen && a.writable
  | .throw e => e.writable
  | .block ss => Stmt.allWritable ss
  | .empty => true

/-- Whether all of the statements have a text. -/
def Stmt.allWritable : List Stmt → Bool
  | [] => true
  | s :: rest => s.writable && Stmt.allWritable rest

/-- Whether the declared name has a text in a declaration of this kind. -/
def Declarator.writable (kind : DeclarationKind) : Declarator → Bool
  | .mk _ none => kind != .const
  | .mk _ (some e) => e.writable

/-- Whether all of the declared names have a text in a declaration of this kind. -/
def Declarator.allWritable (kind : DeclarationKind) : List Declarator → Bool
  | [] => true
  | d :: rest => d.writable kind && Declarator.allWritable kind rest

end

/-- Whether the program has a text. -/
def Program.writable (p : Program) : Bool := Stmt.allWritable p.body

/-! ### Texts of trees -/

/-- **The text spells the tokens:** blank, and then the tokens with gaps between, each in any of its
spellings. -/
def Spells (ts : List Token) (s : List Char) : Prop :=
  ∃ lead body, Grammar.Blank lead ∧ Spaced ts body ∧ s = lead ++ body

end ScriptModules
