import Mathlib.Data.List.Forall2
import ScriptModules.Proofs.Gaps

/-!
# Reading between gaps

What a pattern does between tokens: `Reads` says that it takes the text up to the next token, with
what nodes, and `Fails` that it does not match. Blank before the next token may be taken or left,
since what comes next skips it. There is one lemma for each way to put patterns together, so that a
derivation for a rule of the grammar follows the rule.
-/

namespace ScriptModules.Grammar

/-! ### Lists of nodes -/

section

variable {ρ : Type}

/-- A single node like this. -/
def Sole (A : Node ρ → Prop) (ns : List (Node ρ)) : Prop := ∃ n, ns = [n] ∧ A n

/-- No nodes. -/
def Nothing (ns : List (Node ρ)) : Prop := ns = []

/-- Nodes like these and then nodes like those. -/
def Then (P Q : List (Node ρ) → Prop) (ns : List (Node ρ)) : Prop :=
  ∃ before after, ns = before ++ after ∧ P before ∧ Q after

/-- A node of the rule with parts like these. -/
def NodeOf (r : ρ) (P : List (Node ρ) → Prop) (n : Node ρ) : Prop :=
  ∃ start stop ns, n = .mk r start stop ns ∧ P ns

end

namespace RuleSet

variable {ρ : Type}

/-- The pattern does not match where the text goes on so. -/
def Fails (g : RuleSet ρ) (p : Pattern ρ) (s : List Char) : Prop :=
  ∀ o, g.Comes .loose p ⟨o, s⟩ none

/-- **The pattern reads a text up to `m`:** it leaves nodes like these, and behind the blank that it
leaves too, the text goes on with `m`. -/
def Reads (g : RuleSet ρ) (p : Pattern ρ) (s m : List Char) (P : List (Node ρ) → Prop) : Prop :=
  ∀ o, ∃ c ns, g.Comes .loose p ⟨o, s⟩ (some (c, ns)) ∧ c.skipBlank.rest = m ∧ P ns

variable {g : RuleSet ρ} {p q : Pattern ρ} {s m e : List Char} {P Q : List (Node ρ) → Prop}

/-- The place behind the blank. -/
theorem comes_blank {c : Cursor} (h : c.skipBlank.rest = m) :
    ∃ o, g.Comes .loose .blank c (some (⟨o, m⟩, [])) := by
  have hblank : g.Comes .loose .blank c (some (c.skipBlank, [])) := .blank
  obtain ⟨o, hc⟩ : ∃ o, c.skipBlank = ⟨o, m⟩ := ⟨c.skipBlank.offset, by rw [← h]⟩
  rw [hc] at hblank
  exact ⟨o, hblank⟩

/-! ### Failures -/

theorem Fails.next (h : g.Fails p s) : g.Fails (.next p q) s := fun o => .catFails (h o)

theorem Fails.alt (h : g.Fails p s) (h' : g.Fails q s) : g.Fails (.alt p q) s :=
  fun o => .altSecond (h o) (h' o)

theorem Fails.rule {r : ρ} (hmode : g.atomicityIn r .loose = .loose) (h : g.Fails (g.body r) s) :
    g.Fails (.rule r) s := fun o => .ruleFails (by rw [hmode]; exact h o)

/-- The second pattern fails behind the first. -/
theorem Reads.next_fails (h : g.Reads p s m P) (h' : g.Fails q m) : g.Fails (.next p q) s := by
  intro o
  obtain ⟨c, ns, hc, hm, -⟩ := h o
  obtain ⟨o', hblank⟩ := comes_blank hm
  exact .catThenFails hc (.catThenFails hblank (h' o'))

/-! ### Matches -/

theorem Reads.mono (h : g.Reads p s m P) (hPQ : ∀ ns, P ns → Q ns) : g.Reads p s m Q := by
  intro o
  obtain ⟨c, ns, hc, hm, hP⟩ := h o
  exact ⟨c, ns, hc, hm, hPQ ns hP⟩

theorem Reads.next (h : g.Reads p s m P) (h' : g.Reads q m e Q) :
    g.Reads (.next p q) s e (Then P Q) := by
  intro o
  obtain ⟨c, ns, hc, hm, hP⟩ := h o
  obtain ⟨o', hblank⟩ := comes_blank hm
  obtain ⟨c', ns', hc', he, hQ⟩ := h' o'
  exact ⟨c', ns ++ ns', .cat hc (.cat hblank hc'), he, ns, ns', rfl, hP, hQ⟩

theorem Reads.altFirst (h : g.Reads p s m P) : g.Reads (.alt p q) s m P := by
  intro o
  obtain ⟨c, ns, hc, hm, hP⟩ := h o
  exact ⟨c, ns, .altFirst hc, hm, hP⟩

theorem Reads.altSecond (h : g.Fails p s) (h' : g.Reads q s m P) : g.Reads (.alt p q) s m P := by
  intro o
  obtain ⟨c, ns, hc, hm, hP⟩ := h' o
  exact ⟨c, ns, .altSecond (h o) hc, hm, hP⟩

theorem Reads.optional (h : g.Reads p s m P) : g.Reads (.optional p) s m P := by
  intro o
  obtain ⟨c, ns, hc, hm, hP⟩ := h o
  exact ⟨c, ns, .optional hc, hm, hP⟩

theorem Fails.optional (h : g.Fails p s) (hs : Solid s) : g.Reads (.optional p) s s Nothing := by
  intro o
  refine ⟨_, _, .optionalNot (h o), ?_, rfl⟩
  rw [Cursor.skipBlank, hs]

/-- A rule that leaves its node. -/
theorem Reads.rule {r : ρ} (hmode : g.mode r = .plain) (h : g.Reads (g.body r) s m P) :
    g.Reads (.rule r) s m (Sole (NodeOf r P)) := by
  intro o
  obtain ⟨c, ns, hc, hm, hP⟩ := h o
  have hinner : g.atomicityIn r .loose = .loose := by rw [atomicityIn, hmode]
  refine ⟨c, _, .rule (by rw [hinner]; exact hc), hm, .mk r ⟨o, s⟩ c.offset ns, ?_, _, _, ns, rfl, hP⟩
  rw [nodesOf, leaves, hmode]
  rfl

/-- A rule that leaves the nodes of its parts. -/
theorem Reads.silent {r : ρ} (hmode : g.mode r = .silent) (h : g.Reads (g.body r) s m P) :
    g.Reads (.rule r) s m P := by
  intro o
  obtain ⟨c, ns, hc, hm, hP⟩ := h o
  have hinner : g.atomicityIn r .loose = .loose := by rw [atomicityIn, hmode]
  refine ⟨c, _, .rule (by rw [hinner]; exact hc), hm, ?_⟩
  rw [nodesOf, leaves, hmode]
  exact hP

/-- The first of several rules that matches. -/
theorem Reads.first [DecidableEq ρ] {r r₀ : ρ} {rs : List ρ} (h : g.Reads (.rule r) s m P)
    (hmem : r ∈ r₀ :: rs) (hbefore : ∀ x ∈ (r₀ :: rs).takeWhile (· ≠ r), g.Fails (.rule x) s) :
    g.Reads (.first (.rule r₀) (rs.map .rule)) s m P := by
  induction rs generalizing r₀ with
  | nil =>
    obtain rfl := List.mem_singleton.1 hmem
    exact h
  | cons r₁ rs ih =>
    by_cases hr : r₀ = r
    · subst hr
      exact h.altFirst
    · have hfails : g.Fails (.rule r₀) s := hbefore r₀ (by simp [hr])
      refine .altSecond hfails (ih ?_ fun x hx => hbefore x ?_)
      · exact (List.mem_cons.1 hmem).resolve_left fun h => hr h.symm
      · rw [List.takeWhile_cons, if_pos (by simp [hr])]
        exact List.mem_cons_of_mem _ hx

/-! ### Repetitions -/

/-- The pattern reads one node for each of the items, up to a place where it fails. -/
def ReadsEach {α : Type} (g : RuleSet ρ) (p : Pattern ρ) (A : α → Node ρ → Prop) :
    List α → List Char → List Char → Prop
  | [], s, m => s = m ∧ g.Fails p s
  | x :: xs, s, m => ∃ k, g.Reads p s k (Sole (A x)) ∧ g.ReadsEach p A xs k m

section

variable {α : Type} {A : α → Node ρ → Prop} {x : α} {xs : List α}

/-- Blank before each of the items is skipped. -/
theorem ReadsEach.star (h : g.ReadsEach p A xs s m) {c : Cursor} (hc : c.skipBlank.rest = s) :
    ∃ c' ns, g.Comes .loose (.star (.cat .blank p)) c (some (c', ns)) ∧ c'.skipBlank.rest = m ∧
      List.Forall₂ A xs ns := by
  induction xs generalizing s c with
  | nil =>
    obtain ⟨rfl, hfails⟩ := h
    obtain ⟨o, hblank⟩ := comes_blank (g := g) hc
    exact ⟨c, [], .starEnd (.catThenFails hblank (hfails o)), hc, .nil⟩
  | cons x xs ih =>
    obtain ⟨k, hread, hrest⟩ := h
    obtain ⟨o, hblank⟩ := comes_blank (g := g) hc
    obtain ⟨c₁, _, hc₁, hk, n, rfl, hn⟩ := hread o
    obtain ⟨c₂, ns, hc₂, hm, hns⟩ := ih hrest hk
    exact ⟨c₂, [n] ++ ns, .star (.cat hblank hc₁) hc₂, hm, .cons hn hns⟩

theorem ReadsEach.many (h : g.ReadsEach p A xs s m) (hs : Solid s) :
    g.Reads (.many p) s m (List.Forall₂ A xs) := by
  intro o
  cases xs with
  | nil =>
    obtain ⟨rfl, hfails⟩ := h
    refine ⟨⟨o, s⟩, [], .optionalNot (.catFails (hfails o)), ?_, .nil⟩
    rw [Cursor.skipBlank, hs]
  | cons x xs =>
    obtain ⟨k, hread, hrest⟩ := h
    obtain ⟨c₁, _, hc₁, hk, n, rfl, hn⟩ := hread o
    obtain ⟨c₂, ns, hc₂, hm, hns⟩ := hrest.star hk
    exact ⟨c₂, [n] ++ ns, .optional (.cat hc₁ hc₂), hm, .cons hn hns⟩

theorem Fails.many (h : g.Fails p s) (hs : Solid s) : g.Reads (.many p) s s Nothing :=
  Fails.optional (fun o => .catFails (h o)) hs

theorem Reads.many_once (h : g.Reads p s m P) (hfails : g.Fails p m) :
    g.Reads (.many p) s m P := by
  intro o
  obtain ⟨c, ns, hc, hm, hP⟩ := h o
  obtain ⟨o', hblank⟩ := comes_blank (g := g) hm
  have hend : g.Comes .loose (.star (.cat .blank p)) c (some (c, [])) :=
    .starEnd (.catThenFails hblank (hfails o'))
  exact ⟨c, ns ++ [], .optional (.cat hc hend), hm, by rwa [List.append_nil]⟩

/-- A list of items with commas between. -/
theorem Reads.commas {k : List Char} (h : g.Reads p s k (Sole (A x))) (hk : Solid k)
    (hrest : g.ReadsEach (.next (.lit ",") p) A xs k m) :
    g.Reads (.commas p) s m (List.Forall₂ A (x :: xs)) := by
  refine (h.next (hrest.many hk)).mono ?_
  rintro _ ⟨_, ns, rfl, ⟨n, rfl, hn⟩, hns⟩
  exact .cons hn hns

end

end RuleSet

end ScriptModules.Grammar
