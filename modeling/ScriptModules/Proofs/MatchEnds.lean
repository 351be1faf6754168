import ScriptModules.Proofs.Matches
import ScriptModules.Syntax.Parse

/-!
# Matching ends

A grammar is `Layered` if every rule has a rank such that the parts that its pattern tries at one
place have ranks below, and if what a star repeats takes a character each time. Then the matcher
needs, for each character of the text, no more fuel than the tallest pattern does at one place
(`Layered.run_and_repeated_end`), and so every pattern comes to something (`Layered.exists_comes`).

The grammar of scripts is layered, so the fuel of the parser is enough for every text
(`matched_iff_comes`).
-/

namespace ScriptModules.Grammar

variable {ρ : Type}

namespace Pattern

/-- Whether every match of the pattern takes a character; `known` are rules that do. -/
def consumes (known : ρ → Bool) : Pattern ρ → Bool
  | rule r => known r
  | text cs => !cs.isEmpty
  | char _ => true
  | cat p q => p.consumes known || q.consumes known
  | alt p q => p.consumes known && q.consumes known
  | blank | finish | optional _ | star _ | not _ => false

/-- The fuel that a pattern needs before it takes a character, if rules need their rank. -/
def need (known : ρ → Bool) (rank : ρ → Nat) : Pattern ρ → Nat
  | rule r => rank r + 1
  | text _ | char _ | blank | finish => 1
  | cat p q =>
    (if p.consumes known then p.need known rank else max (p.need known rank) (q.need known rank)) + 1
  | alt p q => max (p.need known rank) (q.need known rank) + 1
  | optional p | not p => p.need known rank + 1
  | star p => p.need known rank + 2

/-- Every part of the pattern needs at most `limit`, and stars repeat what takes a character. -/
def fits (known : ρ → Bool) (rank : ρ → Nat) (limit : Nat) : Pattern ρ → Bool
  | rule r => (rule r).need known rank ≤ limit
  | text cs => (text cs : Pattern ρ).need known rank ≤ limit
  | char k => (char k : Pattern ρ).need known rank ≤ limit
  | blank => (blank : Pattern ρ).need known rank ≤ limit
  | finish => (finish : Pattern ρ).need known rank ≤ limit
  | cat p q => (cat p q).need known rank ≤ limit && p.fits known rank limit && q.fits known rank limit
  | alt p q => (alt p q).need known rank ≤ limit && p.fits known rank limit && q.fits known rank limit
  | optional p => (optional p).need known rank ≤ limit && p.fits known rank limit
  | not p => (Pattern.not p).need known rank ≤ limit && p.fits known rank limit
  | star p => (star p).need known rank ≤ limit && p.consumes known && p.fits known rank limit

variable {known : ρ → Bool} {rank : ρ → Nat} {limit : Nat}

theorem need_le_of_fits {p : Pattern ρ} (h : p.fits known rank limit = true) :
    p.need known rank ≤ limit := by
  cases p <;> simp only [fits, Bool.and_eq_true, decide_eq_true_eq] at h
  case cat | alt | star => exact h.1.1
  case optional | not => exact h.1
  all_goals exact h

end Pattern

/-- **A grammar without left recursion,** as the ranks of its rules show. -/
structure RuleSet.Layered (g : RuleSet ρ) (known : ρ → Bool) (rank : ρ → Nat) (limit : Nat) :
    Prop where
  consumes : ∀ r, known r = true → (g.body r).consumes known = true
  need_le : ∀ r, (g.body r).need known rank ≤ rank r
  fits : ∀ r, (g.body r).fits known rank limit = true

namespace RuleSet.Layered

variable {g : RuleSet ρ} {known : ρ → Bool} {rank : ρ → Nat} {limit : Nat}
  (L : g.Layered known rank limit)

include L

/-- What takes a character leaves a shorter text. -/
theorem shorter {at_ : Atomicity} {p : Pattern ρ} {c c' : Cursor} {ns : List (Node ρ)}
    (h : g.Comes at_ p c (some (c', ns))) (hp : p.consumes known = true) :
    c'.rest.length < c.rest.length := by
  generalize hr : some (c', ns) = r at h
  -- for a sequence it is enough that one of the parts takes a character
  induction h generalizing c' ns with
  | @text at_ cs c c₁ h =>
    cases hr
    rw [(Cursor.strip?_reaches h).2, List.length_append]
    cases cs with
    | nil => cases hp
    | cons x cs => exact Nat.lt_add_of_pos_left (Nat.zero_lt_succ _)
  | char _ =>
    cases hr
    exact Nat.lt_succ_self _
  | cat h h' ihp ihq =>
    cases hr
    rcases Bool.or_eq_true_iff.1 hp with hp | hq
    · exact Nat.lt_of_le_of_lt h'.reaches.length_le (ihp hp rfl)
    · exact Nat.lt_of_lt_of_le (ihq hq rfl) h.reaches.length_le
  | altFirst _ ih => exact ih (Bool.and_eq_true_iff.1 hp).1 hr
  | altSecond _ _ _ ih => exact ih (Bool.and_eq_true_iff.1 hp).2 hr
  | @rule at_ r c c₁ ns₁ _ ih =>
    cases hr
    exact ih (L.consumes r hp) rfl
  | blank | finish _ | optional _ _ | optionalNot _ _ | starEnd _ _ | star _ _ _ _ | not _ _ =>
    cases hp
  | textFails _ | charFails _ | finishFails _ | catFails _ _ | catThenFails _ _ _ _ | notFails _ _
  | ruleFails _ _ => cases hr

/-- Repeating a pattern that ends, as long as it takes characters, ends. -/
theorem repeated_ends {n : Nat} {p : Pattern ρ}
    (hrun : ∀ l at_ c a, c.rest.length ≤ l → limit * l + p.need known rank ≤ n →
      (g.run n at_ p c a).1 ≠ .exhausted)
    (hrep : ∀ l at_ c read a, c.rest.length ≤ l → limit * l + p.need known rank + 1 ≤ n →
      (g.repeated n at_ p c read a).1 ≠ .exhausted)
    (hp : p.consumes known = true) (hlimit : p.need known rank + 2 ≤ limit) {l : Nat}
    (at_ : Atomicity) (c : Cursor) (read : List (Node ρ)) (a : Attempts ρ)
    (hl : c.rest.length ≤ l) (hn : limit * l + p.need known rank + 1 ≤ n + 1) :
    (g.repeated (n + 1) at_ p c read a).1 ≠ .exhausted := by
  have hfirst := hrun l at_ c a hl (by omega)
  have hcomes := (g.run_agrees n).1 at_ p c a
  simp only [repeated]
  rcases hx : g.run n at_ p c a with ⟨v, a₁⟩
  rw [hx] at hfirst hcomes
  cases v with
  | matched c₁ ns₁ =>
    -- the rest is shorter, so the fuel of one character is free
    have hshorter := L.shorter hcomes hp
    obtain ⟨l, rfl⟩ : ∃ l', l = l' + 1 := ⟨l - 1, by omega⟩
    have hfuel : limit * l + limit = limit * (l + 1) := (Nat.mul_succ _ _).symm
    exact hrep l at_ c₁ _ a₁ (by omega) (by omega)
  | failed => simp
  | exhausted => exact absurd rfl hfirst

/-- **Matching ends** with fuel for each character of the text. -/
theorem run_and_repeated_end (n : Nat) :
    (∀ l at_ p c a, p.fits known rank limit = true → c.rest.length ≤ l →
      limit * l + p.need known rank ≤ n → (g.run n at_ p c a).1 ≠ .exhausted) ∧
    ∀ l at_ p c read a, p.fits known rank limit = true → p.consumes known = true →
      p.need known rank + 2 ≤ limit → c.rest.length ≤ l →
      limit * l + p.need known rank + 1 ≤ n → (g.repeated n at_ p c read a).1 ≠ .exhausted := by
  induction n with
  | zero =>
    constructor
    · intro l at_ p c a _ _ hn
      have : 0 < p.need known rank := by cases p <;> simp [Pattern.need]
      omega
    · intro l at_ p c read a _ _ _ _ hn
      omega
  | succ n ih =>
    obtain ⟨ihrun, ihrep⟩ := ih
    constructor
    · intro l at_ p c a hfits hl hn
      cases p with
      | rule r =>
        have hbody : ∀ at', (g.run n at' (g.body r) c a).1 ≠ .exhausted := fun at' => by
          have := L.need_le r
          rw [Pattern.need] at hn
          exact ihrun l at' _ c a (L.fits r) hl (by omega)
        simp only [run]
        have hnoted : ∀ at' x, x.1 ≠ .exhausted →
            (noted r at' c (a.count c.offset) x).1 ≠ .exhausted := by
          intro at' x hx
          obtain ⟨v, a⟩ := x
          cases v with
          | matched c' ns =>
            simp only [noted]
            split <;> simp
          | failed => simp [noted]
          | exhausted => exact absurd rfl hx
        cases g.mode r with
        | silent => exact hbody at_
        | plain | atomic | compound => exact hnoted _ _ (hbody _)
      | text cs =>
        simp only [run]
        cases c.strip? cs <;> simp
      | char k =>
        obtain ⟨o, _ | ⟨x, rest⟩⟩ := c
        · simp [run]
        · simp only [run]
          split <;> simp
      | blank => simp [run]
      | finish =>
        simp only [run]
        split <;> simp
      | cat p q =>
        simp only [Pattern.fits, Bool.and_eq_true, decide_eq_true_eq] at hfits
        obtain ⟨⟨-, hp⟩, hq⟩ := hfits
        have hlimit := Pattern.need_le_of_fits hq
        rw [Pattern.need] at hn
        have hfirst := ihrun l at_ p c a hp hl (by split at hn <;> omega)
        have hcomes := (g.run_agrees n).1 at_ p c a
        simp only [run]
        rcases hx : g.run n at_ p c a with ⟨v, a₁⟩
        rw [hx] at hfirst hcomes
        cases v with
        | matched c₁ ns₁ =>
          have hsecond : (g.run n at_ q c₁ a₁).1 ≠ .exhausted := by
            by_cases hc : p.consumes known = true
            -- behind a character the fuel of that character is free
            · have hshorter := L.shorter hcomes hc
              obtain ⟨l, rfl⟩ : ∃ l', l = l' + 1 := ⟨l - 1, by omega⟩
              have hfuel : limit * l + limit = limit * (l + 1) := (Nat.mul_succ _ _).symm
              exact ihrun l at_ q c₁ a₁ hq (by omega) (by split at hn <;> omega)
            · rw [if_neg hc] at hn
              have hlength := (Comes.reaches hcomes).length_le
              exact ihrun l at_ q c₁ a₁ hq (by omega) (by omega)
          simp only
          rcases hy : g.run n at_ q c₁ a₁ with ⟨v', a₂⟩
          rw [hy] at hsecond
          cases v' with
          | matched c₂ ns₂ => simp
          | failed => simp
          | exhausted => exact absurd rfl hsecond
        | failed => simp
        | exhausted => exact absurd rfl hfirst
      | alt p q =>
        simp only [Pattern.fits, Bool.and_eq_true, decide_eq_true_eq] at hfits
        obtain ⟨⟨-, hp⟩, hq⟩ := hfits
        rw [Pattern.need] at hn
        have hfirst := ihrun l at_ p c a hp hl (by omega)
        simp only [run]
        rcases hx : g.run n at_ p c a with ⟨v, a₁⟩
        rw [hx] at hfirst
        cases v with
        | matched c₁ ns₁ => simp
        | failed => exact ihrun l at_ q c a₁ hq hl (by omega)
        | exhausted => exact absurd rfl hfirst
      | optional p | not p =>
        simp only [Pattern.fits, Bool.and_eq_true, decide_eq_true_eq] at hfits
        rw [Pattern.need] at hn
        have hfirst := ihrun l at_ p c a hfits.2 hl (by omega)
        simp only [run]
        rcases hx : g.run n at_ p c a with ⟨v, a₁⟩
        rw [hx] at hfirst
        cases v with
        | matched c₁ ns₁ => simp
        | failed => simp
        | exhausted => exact absurd rfl hfirst
      | star p =>
        simp only [Pattern.fits, Bool.and_eq_true, decide_eq_true_eq] at hfits
        obtain ⟨⟨hlimit, hp⟩, hfits⟩ := hfits
        rw [Pattern.need] at hn hlimit
        exact ihrep l at_ p c [] a hfits hp hlimit hl (by omega)
    · intro l at_ p c read a hfits hp hlimit hl hn
      exact L.repeated_ends (fun l at_ c a => ihrun l at_ p c a hfits)
        (fun l at_ c read a => ihrep l at_ p c read a hfits hp hlimit) hp hlimit at_ c read a hl hn

/-- **A pattern comes to something at every place.** -/
theorem exists_comes {p : Pattern ρ} (hfits : p.fits known rank limit = true) (at_ : Atomicity)
    (c : Cursor) : ∃ r, g.Comes at_ p c r := by
  have hends := (L.run_and_repeated_end (limit * c.rest.length + p.need known rank)).1
    c.rest.length at_ p c {} hfits (Nat.le_refl _) (Nat.le_refl _)
  have hcomes := (g.run_agrees (limit * c.rest.length + p.need known rank)).1 at_ p c {}
  cases hv : (g.run (limit * c.rest.length + p.need known rank) at_ p c {}).1 with
  | matched c' ns =>
    rw [hv] at hcomes
    exact ⟨_, hcomes⟩
  | failed =>
    rw [hv] at hcomes
    exact ⟨_, hcomes⟩
  | exhausted => exact absurd hv hends

end RuleSet.Layered

/-! ### The grammar of scripts -/

namespace Rule

/-- The rules whose matches take a character. -/
def takesCharacter : Rule → Bool
  | endOfInput | script | doubleQuoted | singleQuoted => false
  | _ => true

/-- Before a rule takes a character, it tries only rules of a lower rank. -/
def rank : Rule → Nat
  | script => 64
  | statement => 58
  | expressionStatement => 48
  | expression => 46
  | conditional => 42
  | binary => 40
  | assignment => 38
  | postfix_ => 36
  | primary => 34
  | arrowFunction => 24
  | arrowParams | variableDeclaration | property | infixOp => 22
  | identifier => 19
  | keyword => 15
  | prefixOp | postfixOp => 9
  | functionDeclaration | variableStatement | returnStatement | ifStatement | throwStatement
  | functionExpression => 7
  | _ => 5

end Rule

/-- **No rule of the grammar of scripts comes back to itself** without taking a character. -/
theorem script_layered : script.Layered Rule.takesCharacter Rule.rank 70 where
  consumes r := by cases r <;> decide +kernel
  need_le r := by cases r <;> decide +kernel
  fits r := by cases r <;> decide +kernel

end ScriptModules.Grammar

namespace ScriptModules

open Grammar

/-- **The fuel of the parser is enough for every rule,** and so is more. -/
theorem matching_ends_of_le (r : Rule) {s : List Char} {n : Nat} (hn : matchFuel s.length ≤ n) :
    (script.run n .loose (.rule r) (Cursor.start s) {}).1 ≠ .exhausted := by
  have hfits : (Pattern.rule r).fits Rule.takesCharacter Rule.rank 70 = true := by
    cases r <;> decide
  have hneed := Pattern.need_le_of_fits hfits
  refine (script_layered.run_and_repeated_end n).1 s.length .loose _ _ _ hfits (Nat.le_refl _) ?_
  unfold matchFuel at hn
  omega

theorem matching_ends (r : Rule) (s : List Char) :
    (script.run (matchFuel s.length) .loose (.rule r) (Cursor.start s) {}).1 ≠ .exhausted :=
  matching_ends_of_le r (Nat.le_refl _)

/-- So the matcher answers what the rule comes to. -/
theorem matched_iff_comes {r : Rule} {s : List Char} {c : Cursor} {ns : List (Node Rule)} :
    (script.run (matchFuel s.length) .loose (.rule r) (Cursor.start s) {}).1 = .matched c ns ↔
      script.Comes .loose (.rule r) (Cursor.start s) (some (c, ns)) := by
  have hagrees := (script.run_agrees (matchFuel s.length)).1 .loose (.rule r) (Cursor.start s) {}
  cases hv : (script.run (matchFuel s.length) .loose (.rule r) (Cursor.start s) {}).1 with
  | matched c' ns' =>
    rw [hv] at hagrees
    have hcomes : script.Comes .loose (.rule r) (Cursor.start s) (some (c', ns')) := hagrees
    constructor
    · rintro ⟨⟩
      exact hcomes
    · intro h
      cases hcomes.unique h
      rfl
  | failed =>
    rw [hv] at hagrees
    have hcomes : script.Comes .loose (.rule r) (Cursor.start s) none := hagrees
    constructor
    · rintro ⟨⟩
    · intro h
      cases hcomes.unique h
  | exhausted => exact absurd hv (matching_ends r s)

end ScriptModules
