import ScriptModules.Grammar.Pattern

/-!
# The grammar of scripts

The rules in the order in which a syntax error lists them, their names, and their patterns.
Keywords are words of their own, no identifier is a keyword, and a statement may end without a
semicolon. Alternatives are tried in order: an arrow function before an assignment before any
other expression.
-/

namespace ScriptModules.Grammar

/-- The rules of the script grammar. -/
inductive Rule where
  | endOfInput | script | keyword | identifier | identifierName
  | varKind | kwFunction | kwReturn | kwIf | kwElse | kwThrow
  | booleanLiteral | nullLiteral | undefinedLiteral | thisExpression | numberLiteral
  | stringLiteral | doubleQuoted | singleQuoted
  | statement
  | functionDeclaration | variableStatement | variableDeclaration | returnStatement | ifStatement
  | throwStatement | block | emptyStatement | expressionStatement | params | functionBody
  | expression | arrowFunction | arrowParams | assignment | assignOp | conditional | binary
  | prefixOp | not | neg | typeofOp
  | infixOp | or | and | strictEq | strictNe | eq | ne | le | ge | lt | gt | add | sub | mul | div
  | rem
  | postfix_ | postfixOp | callArguments | memberDot | memberIndex
  | primary | functionExpression | arrayLiteral | objectLiteral | property | parenthesized
deriving DecidableEq, Repr

namespace Rule

/-- The name of a rule in a syntax error. -/
def name : Rule → String
  | endOfInput => "EOI" | script => "script" | keyword => "keyword" | identifier => "identifier"
  | identifierName => "identifier_name" | varKind => "var_kind" | kwFunction => "kw_function"
  | kwReturn => "kw_return" | kwIf => "kw_if" | kwElse => "kw_else" | kwThrow => "kw_throw"
  | booleanLiteral => "boolean_literal" | nullLiteral => "null_literal"
  | undefinedLiteral => "undefined_literal" | thisExpression => "this_expression"
  | numberLiteral => "number_literal" | stringLiteral => "string_literal"
  | doubleQuoted => "double_quoted" | singleQuoted => "single_quoted" | statement => "statement"
  | functionDeclaration => "function_declaration" | variableStatement => "variable_statement"
  | variableDeclaration => "variable_declaration" | returnStatement => "return_statement"
  | ifStatement => "if_statement" | throwStatement => "throw_statement" | block => "block"
  | emptyStatement => "empty_statement" | expressionStatement => "expression_statement"
  | params => "params" | functionBody => "function_body" | expression => "expression"
  | arrowFunction => "arrow_function" | arrowParams => "arrow_params" | assignment => "assignment"
  | assignOp => "assign_op" | conditional => "conditional" | binary => "binary"
  | prefixOp => "prefix_op" | not => "not" | neg => "neg" | typeofOp => "typeof_op"
  | infixOp => "infix_op" | or => "or" | and => "and" | strictEq => "strict_eq"
  | strictNe => "strict_ne" | eq => "eq" | ne => "ne" | le => "le" | ge => "ge" | lt => "lt"
  | gt => "gt" | add => "add" | sub => "sub" | mul => "mul" | div => "div" | rem => "rem"
  | postfix_ => "postfix" | postfixOp => "postfix_op" | callArguments => "call_arguments"
  | memberDot => "member_dot" | memberIndex => "member_index" | primary => "primary"
  | functionExpression => "function_expression" | arrayLiteral => "array_literal"
  | objectLiteral => "object_literal" | property => "property" | parenthesized => "parenthesized"

/-- All rules, in the order of the grammar. -/
def all : List Rule := [
  endOfInput, script, keyword, identifier, identifierName,
  varKind, kwFunction, kwReturn, kwIf, kwElse, kwThrow,
  booleanLiteral, nullLiteral, undefinedLiteral, thisExpression, numberLiteral,
  stringLiteral, doubleQuoted, singleQuoted,
  statement,
  functionDeclaration, variableStatement, variableDeclaration, returnStatement, ifStatement,
  throwStatement, block, emptyStatement, expressionStatement, params, functionBody,
  expression, arrowFunction, arrowParams, assignment, assignOp, conditional, binary,
  prefixOp, not, neg, typeofOp,
  infixOp, or, and, strictEq, strictNe, eq, ne, le, ge, lt, gt, add, sub, mul, div,
  rem,
  postfix_, postfixOp, callArguments, memberDot, memberIndex,
  primary, functionExpression, arrayLiteral, objectLiteral, property, parenthesized]

/-- What each rule does besides matching. -/
def mode : Rule → Mode
  | keyword | identifier | identifierName | varKind | kwFunction | kwReturn | kwIf | kwElse
  | kwThrow | booleanLiteral | nullLiteral | undefinedLiteral | thisExpression | numberLiteral
  | doubleQuoted | singleQuoted | assignOp | typeofOp | add | sub => .atomic
  | stringLiteral => .compound
  | statement | expression | prefixOp | infixOp | postfixOp | primary => .silent
  | _ => .plain

open Pattern

/-- The words that are no identifiers. -/
def keywords : List String :=
  ["let", "const", "function", "return", "if", "else", "throw", "typeof", "true", "false", "null",
    "undefined", "this"]

/-- A semicolon or nothing. -/
def semicolon : Pattern Rule := optional (lit ";")

/-- The characters of a literal between quotes: a backslash takes the character behind it. -/
def quoted (quote : Char) : Pattern Rule :=
  many (alt (next (lit "\\") (char (.noneOf []))) (char (.noneOf [quote, '\\', '\n'])))

/-- Digits, one or more. -/
def digits : Pattern Rule := many1 (char .digit)

/-- The pattern of each rule. -/
def body : Rule → Pattern Rule
  | endOfInput => finish
  | script => cat blank (next (many (rule statement)) (rule endOfInput))
  | keyword => next (first (lit "var") (keywords.map lit)) (.not (char .namePart))
  | identifier => seq (.not (rule keyword)) [char .nameStart, many (char .namePart)]
  | identifierName => seq (char .nameStart) [many (char .namePart)]
  | varKind => next (first (lit "var") [lit "let", lit "const"]) (.not (char .namePart))
  | kwFunction => Pattern.keyword "function"
  | kwReturn => Pattern.keyword "return"
  | kwIf => Pattern.keyword "if"
  | kwElse => Pattern.keyword "else"
  | kwThrow => Pattern.keyword "throw"
  | booleanLiteral => next (alt (lit "true") (lit "false")) (.not (char .namePart))
  | nullLiteral => Pattern.keyword "null"
  | undefinedLiteral => Pattern.keyword "undefined"
  | thisExpression => Pattern.keyword "this"
  | numberLiteral => seq digits
      [optional (next (lit ".") digits),
        optional (seq (char (.oneOf ['e', 'E'])) [optional (char (.oneOf ['+', '-'])), digits])]
  | stringLiteral => alt (seq (lit "\"") [rule doubleQuoted, lit "\""])
      (seq (lit "'") [rule singleQuoted, lit "'"])
  | doubleQuoted => quoted '"'
  | singleQuoted => quoted '\''
  | statement => first (rule functionDeclaration) [rule variableStatement, rule returnStatement,
      rule ifStatement, rule throwStatement, rule block, rule emptyStatement,
      rule expressionStatement]
  | functionDeclaration => seq (rule kwFunction) [rule identifier, rule params, rule functionBody]
  | variableStatement => seq (rule varKind)
      [rule variableDeclaration, many (next (lit ",") (rule variableDeclaration)), semicolon]
  | variableDeclaration => next (rule identifier) (optional (next (lit "=") (rule expression)))
  | returnStatement => seq (rule kwReturn) [optional (rule expression), semicolon]
  | ifStatement => seq (rule kwIf) [lit "(", rule expression, lit ")", rule statement,
      optional (next (rule kwElse) (rule statement))]
  | throwStatement => seq (rule kwThrow) [rule expression, semicolon]
  | block => seq (lit "\x7b") [many (rule statement), lit "\x7d"]
  | emptyStatement => lit ";"
  | expressionStatement => next (rule expression) semicolon
  | params => seq (lit "(") [optional (commas (rule identifier)), lit ")"]
  | functionBody => seq (lit "\x7b") [many (rule statement), lit "\x7d"]
  | expression => first (rule arrowFunction) [rule assignment, rule conditional]
  | arrowFunction => seq (rule arrowParams)
      [lit "=>", alt (rule functionBody) (rule expression)]
  | arrowParams => alt (rule identifier)
      (seq (lit "(") [optional (commas (rule identifier)), lit ")"])
  | assignment => seq (rule postfix_) [rule assignOp, rule expression]
  | assignOp => alt (lit "+=") (alt (lit "-=") (next (lit "=") (.not (char (.oneOf ['=', '>'])))))
  | conditional => next (rule binary)
      (optional (seq (lit "?") [rule expression, lit ":", rule expression]))
  | binary => seq (many (rule prefixOp))
      [rule postfix_, many (seq (rule infixOp) [many (rule prefixOp), rule postfix_])]
  | prefixOp => first (rule not) [rule neg, rule typeofOp]
  | not => lit "!"
  | neg => lit "-"
  | typeofOp => Pattern.keyword "typeof"
  | infixOp => first (rule or) [rule and, rule strictEq, rule strictNe, rule eq, rule ne, rule le,
      rule ge, rule lt, rule gt, rule add, rule sub, rule mul, rule div, rule rem]
  | or => lit "||"
  | and => lit "&&"
  | strictEq => lit "==="
  | strictNe => lit "!=="
  | eq => lit "=="
  | ne => lit "!="
  | le => lit "<="
  | ge => lit ">="
  | lt => lit "<"
  | gt => lit ">"
  | add => next (lit "+") (.not (lit "="))
  | sub => next (lit "-") (.not (lit "="))
  | mul => lit "*"
  | div => lit "/"
  | rem => lit "%"
  | postfix_ => next (rule primary) (many (rule postfixOp))
  | postfixOp => first (rule callArguments) [rule memberDot, rule memberIndex]
  | callArguments => seq (lit "(") [optional (commas (rule expression)), lit ")"]
  | memberDot => next (lit ".") (rule identifierName)
  | memberIndex => seq (lit "[") [rule expression, lit "]"]
  | primary => first (rule functionExpression) [rule arrayLiteral, rule objectLiteral,
      rule numberLiteral, rule stringLiteral, rule booleanLiteral, rule nullLiteral,
      rule undefinedLiteral, rule thisExpression, rule identifier, rule parenthesized]
  | functionExpression => seq (rule kwFunction)
      [optional (rule identifier), rule params, rule functionBody]
  | arrayLiteral => seq (lit "[")
      [optional (next (commas (rule expression)) (optional (lit ","))), lit "]"]
  | objectLiteral => seq (lit "\x7b")
      [optional (next (commas (rule property)) (optional (lit ","))), lit "\x7d"]
  | property => alt
      (seq (first (rule identifierName) [rule stringLiteral, rule numberLiteral])
        [lit ":", rule expression])
      (rule identifier)
  | parenthesized => seq (lit "(") [rule expression, lit ")"]

end Rule

/-- The grammar of scripts. -/
def script : RuleSet Rule := ⟨Rule.body, Rule.mode⟩

end ScriptModules.Grammar
