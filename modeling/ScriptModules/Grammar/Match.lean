import ScriptModules.Grammar.Pattern
import ScriptModules.Grammar.Cursor

/-!
# Matching

The matcher runs a pattern at a place of a text. Besides the place behind the match it yields the
nodes of the rules that took part, and it keeps the furthest attempts: the rules that were tried
and failed at the greatest offset where any failed. A rule stands for the attempts below it at
its own place, unless there was just one.

The matcher is total by fuel. A run out of fuel is told apart from a failure.
-/

namespace ScriptModules.Grammar

/-- A part of a text matched by a rule. -/
inductive Node (ρ : Type) where
  | mk (rule : ρ) (start : Cursor) (stop : Nat) (children : List (Node ρ))

namespace Node

variable {ρ : Type}

/-- The rule that matched. -/
def rule : Node ρ → ρ
  | mk r _ _ _ => r

/-- The offset of its first character. -/
def offset : Node ρ → Nat
  | mk _ start _ _ => start.offset

/-- The nodes of its parts. -/
def children : Node ρ → List (Node ρ)
  | mk _ _ _ ns => ns

/-- Its characters. -/
def chars : Node ρ → List Char
  | mk _ start stop _ => start.rest.take (stop - start.offset)

/-- Its text. -/
def text (n : Node ρ) : String := String.ofList n.chars

end Node

/-- Whether blank may stand between parts and whether rules are reported. -/
inductive Atomicity where
  | loose | compound | atomic
deriving DecidableEq, Repr

/-- The rules that failed at the furthest offset so far. -/
structure Attempts (ρ : Type) where
  offset : Nat := 0
  rules : List ρ := []

namespace Attempts

variable {ρ : Type}

/-- The number of attempts at `offset`. -/
def count (a : Attempts ρ) (offset : Nat) : Nat := if a.offset = offset then a.rules.length else 0

/-- Report that `r` failed at `offset`, where `before` attempts had been made when it began. The
attempts made below it give way to it, unless there was just one. -/
def report (a : Attempts ρ) (r : ρ) (offset before : Nat) : Attempts ρ :=
  if a.count offset = before + 1 then a
  else if offset = a.offset then ⟨offset, a.rules.take before ++ [r]⟩
  else if a.offset < offset then ⟨offset, [r]⟩
  else a

end Attempts

/-- How a run of a pattern ended. -/
inductive Verdict (ρ : Type) where
  | matched (place : Cursor) (nodes : List (Node ρ))
  | failed
  | exhausted

namespace RuleSet

variable {ρ : Type} (g : RuleSet ρ)

/-- What the end of a rule leaves behind: a node if it matched, a report if it failed. Inside a
token neither. -/
def noted (r : ρ) (at_ : Atomicity) (start : Cursor) (before : Nat) :
    Verdict ρ × Attempts ρ → Verdict ρ × Attempts ρ
  | (.matched c ns, a) =>
    if at_ = .atomic then (.matched c ns, a) else (.matched c [.mk r start c.offset ns], a)
  | (.failed, a) => (.failed, if at_ = .atomic then a else a.report r start.offset before)
  | (.exhausted, a) => (.exhausted, a)

mutual

/-- Run a pattern at a place. -/
def run : Nat → Atomicity → Pattern ρ → Cursor → Attempts ρ → Verdict ρ × Attempts ρ
  | 0, _, _, _, a => (.exhausted, a)
  | fuel + 1, at_, p, c, a =>
    match p with
    | .text cs =>
      match c.strip? cs with
      | some c' => (.matched c' [], a)
      | none => (.failed, a)
    | .char k =>
      match c.rest with
      | x :: rest => if k.has x then (.matched ⟨c.offset + 1, rest⟩ [], a) else (.failed, a)
      | [] => (.failed, a)
    | .blank => (.matched (if at_ = .loose then c.skipBlank else c) [], a)
    | .finish => if c.rest.isEmpty then (.matched c [], a) else (.failed, a)
    | .cat p q =>
      match run fuel at_ p c a with
      | (.matched c₁ ns₁, a) =>
        match run fuel at_ q c₁ a with
        | (.matched c₂ ns₂, a) => (.matched c₂ (ns₁ ++ ns₂), a)
        | other => other
      | other => other
    | .alt p q =>
      match run fuel at_ p c a with
      | (.failed, a) => run fuel at_ q c a
      | other => other
    | .optional p =>
      match run fuel at_ p c a with
      | (.failed, a) => (.matched c [], a)
      | other => other
    | .star p => repeated fuel at_ p c [] a
    | .not p =>
      match run fuel at_ p c a with
      | (.matched _ _, _) => (.failed, a)
      | (.failed, _) => (.matched c [], a)
      | (.exhausted, a) => (.exhausted, a)
    | .rule r =>
      match g.mode r with
      | .silent => run fuel at_ (g.body r) c a
      | .plain => noted r at_ c (a.count c.offset) (run fuel at_ (g.body r) c a)
      | .atomic => noted r at_ c (a.count c.offset) (run fuel .atomic (g.body r) c a)
      | .compound => noted r .compound c (a.count c.offset) (run fuel .compound (g.body r) c a)

/-- Run a pattern until it fails, after the nodes `read` (last first). -/
def repeated : Nat → Atomicity → Pattern ρ → Cursor → List (Node ρ) → Attempts ρ →
    Verdict ρ × Attempts ρ
  | 0, _, _, _, _, a => (.exhausted, a)
  | fuel + 1, at_, p, c, read, a =>
    match run fuel at_ p c a with
    | (.matched c' ns, a) => repeated fuel at_ p c' (ns.reverse ++ read) a
    | (.failed, a) => (.matched c read.reverse, a)
    | (.exhausted, a) => (.exhausted, a)

end

end RuleSet

end ScriptModules.Grammar
