import ScriptModules.Proofs.MatchEnds

/-!
# The furthest failure

Matching calls rules, and many of the calls fail before the text is matched or refused.
`RuleSet.Calls` says which rules are called, by following what patterns come to, and
`RuleSet.Missed` which of these calls count: those of a rule that is not silent, outside a token, that
fail. The matcher keeps only the furthest of them, drops what it kept when it gets further, and
replaces what a rule tried by the rule itself. Whatever it drops, three things stay true
(`Attempts.Tracks`): no failure lies behind the kept place, each kept rule failed at it, and something
is kept as soon as anything failed.

`RuleSet.Reporting.run_tracks` is the induction along the matcher. It needs of the grammar that
nothing outside tokens is tried in order to fail, and that tokens are made of tokens.
-/

namespace ScriptModules.Grammar

variable {ρ : Type}

namespace RuleSet

/-! ### Calls and failures -/

/-- **Matching a pattern at a place calls a rule at a place.** -/
inductive Calls (g : RuleSet ρ) :
    Atomicity → Pattern ρ → Cursor → Atomicity → ρ → Cursor → Prop where
  | here {at_ r c} : Calls g at_ (.rule r) c at_ r c
  | inside {at_ at' r r'} {c c' : Cursor} : Calls g (g.atomicityIn r at_) (g.body r) c at' r' c' →
    Calls g at_ (.rule r) c at' r' c'
  | catFirst {at_ at' p q r c c'} : Calls g at_ p c at' r c' → Calls g at_ (.cat p q) c at' r c'
  | catSecond {at_ at' p q r c c₁ c' ns} : g.Comes at_ p c (some (c₁, ns)) →
    Calls g at_ q c₁ at' r c' → Calls g at_ (.cat p q) c at' r c'
  | altFirst {at_ at' p q r c c'} : Calls g at_ p c at' r c' → Calls g at_ (.alt p q) c at' r c'
  | altSecond {at_ at' p q r c c'} : g.Comes at_ p c none → Calls g at_ q c at' r c' →
    Calls g at_ (.alt p q) c at' r c'
  | optional {at_ at' p r c c'} : Calls g at_ p c at' r c' → Calls g at_ (.optional p) c at' r c'
  | starFirst {at_ at' p r c c'} : Calls g at_ p c at' r c' → Calls g at_ (.star p) c at' r c'
  | starNext {at_ at' p r c c₁ c' ns} : g.Comes at_ p c (some (c₁, ns)) →
    Calls g at_ (.star p) c₁ at' r c' → Calls g at_ (.star p) c at' r c'
  | not {at_ at' p r c c'} : Calls g at_ p c at' r c' → Calls g at_ (.not p) c at' r c'

/-- **A call that counts failed:** matching the pattern calls the rule, which is not silent, outside a
token at this offset, and the rule matches nothing there. -/
def Missed (g : RuleSet ρ) (at_ : Atomicity) (p : Pattern ρ) (c : Cursor) (r : ρ) (o : Nat) : Prop :=
  ∃ at' c', g.Calls at_ p c at' r c' ∧ g.mode r ≠ .silent ∧ at' ≠ .atomic ∧
    g.Comes at' (.rule r) c' none ∧ c'.offset = o

variable {g : RuleSet ρ} {at_ at' : Atomicity} {p q : Pattern ρ} {c c₁ c' : Cursor} {r r' : ρ}
  {ns : List (Node ρ)} {o : Nat}

/-- What is called is called in the text that is matched. -/
theorem Calls.reaches (h : g.Calls at_ p c at' r c') : c.Reaches c' := by
  induction h with
  | here => exact .refl _
  | inside _ ih | catFirst _ ih | altFirst _ ih | altSecond _ _ ih | optional _ ih | starFirst _ ih
  | not _ ih => exact ih
  | catSecond hp _ ih | starNext hp _ ih => exact hp.reaches.trans ih

/-- What calls the same misses the same. -/
theorem missed_congr
    (h : ∀ at' c', g.Calls at_ p c at' r c' ↔ g.Calls at_ q c₁ at' r c') :
    g.Missed at_ p c r o ↔ g.Missed at_ q c₁ r o :=
  exists_congr fun at' => exists_congr fun c' => and_congr_left' (h at' c')

/-- What calls the same as two others misses the same as these. -/
theorem missed_iff_or {p' : Pattern ρ} {c₂ : Cursor} (h : ∀ at' c', g.Calls at_ p c at' r c' ↔
      g.Calls at_ p' c at' r c' ∨ g.Calls at_ q c₂ at' r c') :
    g.Missed at_ p c r o ↔ g.Missed at_ p' c r o ∨ g.Missed at_ q c₂ r o := by
  unfold Missed
  simp only [h, or_and_right, exists_or]

theorem missed_cat_of_matched (hp : g.Comes at_ p c (some (c₁, ns))) :
    g.Missed at_ (.cat p q) c r o ↔ g.Missed at_ p c r o ∨ g.Missed at_ q c₁ r o := by
  refine missed_iff_or fun at' c' => ⟨fun hcalls => ?_, fun h => h.elim .catFirst (.catSecond hp)⟩
  cases hcalls with
  | catFirst h => exact .inl h
  | catSecond hp' h =>
    cases hp.unique hp'
    exact .inr h

theorem missed_cat_of_failed (hp : g.Comes at_ p c none) :
    g.Missed at_ (.cat p q) c r o ↔ g.Missed at_ p c r o := by
  refine missed_congr fun at' c' => ⟨fun hcalls => ?_, .catFirst⟩
  cases hcalls with
  | catFirst h => exact h
  | catSecond hp' h => cases hp.unique hp'

theorem missed_alt_of_matched (hp : g.Comes at_ p c (some (c₁, ns))) :
    g.Missed at_ (.alt p q) c r o ↔ g.Missed at_ p c r o := by
  refine missed_congr fun at' c' => ⟨fun hcalls => ?_, .altFirst⟩
  cases hcalls with
  | altFirst h => exact h
  | altSecond hp' h => cases hp.unique hp'

theorem missed_alt_of_failed (hp : g.Comes at_ p c none) :
    g.Missed at_ (.alt p q) c r o ↔ g.Missed at_ p c r o ∨ g.Missed at_ q c r o := by
  refine missed_iff_or fun at' c' => ⟨fun hcalls => ?_, fun h => h.elim .altFirst (.altSecond hp)⟩
  cases hcalls with
  | altFirst h => exact .inl h
  | altSecond _ h => exact .inr h

theorem missed_optional : g.Missed at_ (.optional p) c r o ↔ g.Missed at_ p c r o := by
  refine missed_congr fun at' c' => ⟨fun hcalls => ?_, .optional⟩
  cases hcalls with
  | optional h => exact h

theorem missed_star_of_matched (hp : g.Comes at_ p c (some (c₁, ns))) :
    g.Missed at_ (.star p) c r o ↔ g.Missed at_ p c r o ∨ g.Missed at_ (.star p) c₁ r o := by
  refine missed_iff_or fun at' c' => ⟨fun hcalls => ?_, fun h => h.elim .starFirst (.starNext hp)⟩
  cases hcalls with
  | starFirst h => exact .inl h
  | starNext hp' h =>
    cases hp.unique hp'
    exact .inr h

theorem missed_star_of_failed (hp : g.Comes at_ p c none) :
    g.Missed at_ (.star p) c r o ↔ g.Missed at_ p c r o := by
  refine missed_congr fun at' c' => ⟨fun hcalls => ?_, .starFirst⟩
  cases hcalls with
  | starFirst h => exact h
  | starNext hp' h => cases hp.unique hp'

/-- A rule may fail itself, and what it calls. -/
theorem missed_rule : g.Missed at_ (.rule r) c r' o ↔
    (r' = r ∧ c.offset = o ∧ g.mode r ≠ .silent ∧ at_ ≠ .atomic ∧ g.Comes at_ (.rule r) c none) ∨
      g.Missed (g.atomicityIn r at_) (g.body r) c r' o := by
  constructor
  · rintro ⟨at', c', hcalls, hmode, hat, hfails, ho⟩
    cases hcalls with
    | here => exact .inl ⟨rfl, ho, hmode, hat, hfails⟩
    | inside h => exact .inr ⟨at', c', h, hmode, hat, hfails, ho⟩
  · rintro (⟨rfl, ho, hmode, hat, hfails⟩ | ⟨at', c', h, hmissed⟩)
    · exact ⟨at_, c, .here, hmode, hat, hfails, ho⟩
    · exact ⟨at', c', .inside h, hmissed⟩

theorem missed_rule_of_matched (h : g.Comes at_ (.rule r) c (some (c₁, ns))) :
    g.Missed at_ (.rule r) c r' o ↔ g.Missed (g.atomicityIn r at_) (g.body r) c r' o := by
  rw [missed_rule]
  refine or_iff_right ?_
  rintro ⟨-, -, -, -, hfails⟩
  cases h.unique hfails

theorem missed_rule_of_silent (h : g.mode r = .silent) :
    g.Missed at_ (.rule r) c r' o ↔ g.Missed (g.atomicityIn r at_) (g.body r) c r' o := by
  rw [missed_rule]
  refine or_iff_right ?_
  rintro ⟨-, -, hmode, -⟩
  exact hmode h

end RuleSet

/-! ### What is kept -/

namespace Attempts

/-- **What is kept of failures.** None lies behind the kept place, each kept rule failed at it, and
rules are kept as soon as there are failures. Before that, the kept place is the first. -/
structure Tracks (a : Attempts ρ) (S : ρ → Nat → Prop) : Prop where
  furthest : ∀ r o, S r o → o ≤ a.offset
  failed : ∀ r ∈ a.rules, S r a.offset
  kept : ∀ r o, S r o → a.rules ≠ []
  fresh : a.rules = [] → a.offset = 0

variable {a : Attempts ρ} {S S' : ρ → Nat → Prop}

theorem Tracks.congr (h : a.Tracks S) (hS : ∀ r o, S' r o ↔ S r o) : a.Tracks S' where
  furthest r o hr := h.furthest r o ((hS r o).1 hr)
  failed r hr := (hS r _).2 (h.failed r hr)
  kept r o hr := h.kept r o ((hS r o).1 hr)
  fresh := h.fresh

/-- At first nothing has failed. -/
theorem Tracks.none : ({} : Attempts ρ).Tracks fun _ _ => False where
  furthest _ _ h := h.elim
  failed _ h := absurd h List.not_mem_nil
  kept _ _ h := h.elim
  fresh _ := rfl

/-- **A report keeps track,** whatever gives way to it. -/
theorem Tracks.report (h : a.Tracks S) (r : ρ) (o before : Nat) :
    (a.report r o before).Tracks fun r' o' => S r' o' ∨ (r' = r ∧ o' = o) := by
  unfold Attempts.report
  split
  · next hone =>
    -- one attempt was made below the rule, at its place, and stands for it
    obtain ⟨ho, hne⟩ : a.offset = o ∧ a.rules ≠ [] := by
      unfold count at hone
      split at hone
      · next ho => exact ⟨ho, fun hnil => by rw [hnil] at hone; cases hone⟩
      · cases hone
    refine ⟨?_, fun r' hr => .inl (h.failed r' hr), fun _ _ _ => hne, h.fresh⟩
    rintro r' o' (hr | ⟨-, rfl⟩)
    · exact h.furthest r' o' hr
    · exact Nat.le_of_eq ho.symm
  · split
    · next ho =>
      subst ho
      refine ⟨?_, fun r' hr => ?_, fun _ _ _ => List.append_ne_nil_of_right_ne_nil _ (List.cons_ne_nil _ _), ?_⟩
      · rintro r' o' (hr | ⟨-, rfl⟩)
        · exact h.furthest r' o' hr
        · exact Nat.le_refl _
      · rcases List.mem_append.1 hr with hr | hr
        · exact .inl (h.failed r' (List.mem_of_mem_take hr))
        · exact .inr ⟨List.mem_singleton.1 hr, rfl⟩
      · intro hnil
        exact absurd hnil (List.append_ne_nil_of_right_ne_nil _ (List.cons_ne_nil _ _))
    · split
      · next hlt =>
        refine ⟨?_, fun r' hr => .inr ⟨List.mem_singleton.1 hr, rfl⟩, fun _ _ _ => List.cons_ne_nil _ _,
          fun hnil => absurd hnil (List.cons_ne_nil _ _)⟩
        rintro r' o' (hr | ⟨-, rfl⟩)
        · exact Nat.le_of_lt (Nat.lt_of_le_of_lt (h.furthest r' o' hr) hlt)
        · exact Nat.le_refl _
      · next hne hge =>
        -- it lies before what is kept, so something is
        have hpos : a.offset ≠ 0 := fun hzero => by omega
        refine ⟨?_, fun r' hr => .inl (h.failed r' hr), fun _ _ _ hnil => hpos (h.fresh hnil),
          h.fresh⟩
        rintro r' o' (hr | ⟨-, rfl⟩)
        · exact h.furthest r' o' hr
        · omega

end Attempts

/-! ### Grammars whose failures are all reported -/

namespace Pattern

/-- Whether nothing is tried in order to fail. -/
def isPositive : Pattern ρ → Bool
  | cat p q | alt p q => p.isPositive && q.isPositive
  | optional p | star p => p.isPositive
  | not _ => false
  | rule _ | text _ | char _ | blank | finish => true

/-- Whether the pattern calls only rules like this. -/
def callsOnly (P : ρ → Bool) : Pattern ρ → Bool
  | rule r => P r
  | cat p q | alt p q => p.callsOnly P && q.callsOnly P
  | optional p | star p | not p => p.callsOnly P
  | text _ | char _ | blank | finish => true

end Pattern

namespace RuleSet

/-- Whether a rule is a token. -/
def isToken (g : RuleSet ρ) (r : ρ) : Bool := g.mode r = .atomic

/-- **A grammar whose failures are all reported:** tokens are made of tokens, so that nothing in them
would be reported, and outside tokens nothing is tried in order to fail. -/
structure Reporting (g : RuleSet ρ) : Prop where
  tokens : ∀ r, g.mode r = .atomic → (g.body r).callsOnly g.isToken = true
  positive : ∀ r, g.mode r ≠ .atomic → (g.body r).isPositive = true

section

variable {g : RuleSet ρ} {n : Nat} {at_ : Atomicity} {p q : Pattern ρ} {c : Cursor}
  {a : Attempts ρ}

theorem cat_silent (hp : (g.run n at_ p c a).2 = a) (hq : ∀ c, (g.run n at_ q c a).2 = a) :
    (g.run (n + 1) at_ (.cat p q) c a).2 = a := by
  simp only [run]
  rcases hx : g.run n at_ p c a with ⟨v, a₁⟩
  rw [hx] at hp
  obtain rfl : a₁ = a := hp
  cases v with
  | matched c₁ ns₁ =>
    have hsecond := hq c₁
    simp only
    rcases hy : g.run n at_ q c₁ a₁ with ⟨v', a₂⟩
    rw [hy] at hsecond
    cases v' <;> exact hsecond
  | failed | exhausted => rfl

theorem alt_silent (hp : (g.run n at_ p c a).2 = a) (hq : (g.run n at_ q c a).2 = a) :
    (g.run (n + 1) at_ (.alt p q) c a).2 = a := by
  simp only [run]
  rcases hx : g.run n at_ p c a with ⟨v, a₁⟩
  rw [hx] at hp
  obtain rfl : a₁ = a := hp
  cases v with
  | failed => exact hq
  | matched c₁ ns₁ => rfl
  | exhausted => rfl

theorem repeated_silent {read : List (Node ρ)} (hp : (g.run n at_ p c a).2 = a)
    (hrest : ∀ c read, (g.repeated n at_ p c read a).2 = a) :
    (g.repeated (n + 1) at_ p c read a).2 = a := by
  simp only [repeated]
  rcases hx : g.run n at_ p c a with ⟨v, a₁⟩
  rw [hx] at hp
  obtain rfl : a₁ = a := hp
  cases v with
  | matched c₁ ns₁ => exact hrest c₁ _
  | failed | exhausted => rfl

end

namespace Reporting

variable {g : RuleSet ρ} (R : g.Reporting)

include R

/-- Inside a token only tokens are called, and so nothing counts as a failure. -/
theorem not_missed {p : Pattern ρ} {c : Cursor} {r : ρ} {o : Nat}
    (hp : p.callsOnly g.isToken = true) : ¬ g.Missed .atomic p c r o := by
  rintro ⟨at', c', hcalls, -, hat, -, -⟩
  generalize hatomic : Atomicity.atomic = at_ at hcalls
  induction hcalls with
  | here => exact hat hatomic.symm
  | @inside at_ at' r r' c c' _ ih =>
    subst hatomic
    have hmode : g.mode r = .atomic := of_decide_eq_true hp
    exact ih (R.tokens r hmode) hat (by rw [atomicityIn, hmode])
  | catFirst _ ih | altFirst _ ih => exact ih (Bool.and_eq_true_iff.1 hp).1 hat hatomic
  | catSecond _ _ ih | altSecond _ _ ih => exact ih (Bool.and_eq_true_iff.1 hp).2 hat hatomic
  | optional _ ih | starFirst _ ih | not _ ih => exact ih hp hat hatomic
  | starNext _ _ ih => exact ih hp hat hatomic

/-- **Inside a token nothing is reported.** -/
theorem token_silent (n : Nat) :
    (∀ p c a, p.callsOnly g.isToken = true → (g.run n .atomic p c a).2 = a) ∧
    ∀ p c read a, p.callsOnly g.isToken = true → (g.repeated n .atomic p c read a).2 = a := by
  induction n with
  | zero => exact ⟨fun _ _ _ _ => rfl, fun _ _ _ _ _ => rfl⟩
  | succ n ih =>
    obtain ⟨ihrun, ihrep⟩ := ih
    constructor
    · intro p c a hp
      cases p with
      | rule r =>
        -- a token that is called inside a token calls tokens only in its turn
        have hmode : g.mode r = .atomic := of_decide_eq_true hp
        have hbody := ihrun (g.body r) c a (R.tokens r hmode)
        simp only [run, hmode]
        rcases hx : g.run n .atomic (g.body r) c a with ⟨v, a'⟩
        rw [hx] at hbody
        cases v <;> exact hbody
      | text cs =>
        simp only [run]
        cases c.strip? cs <;> rfl
      | char k =>
        obtain ⟨o, _ | ⟨x, rest⟩⟩ := c
        · rfl
        · simp only [run]
          split <;> rfl
      | blank => rfl
      | finish =>
        simp only [run]
        split <;> rfl
      | cat p q =>
        obtain ⟨hp, hq⟩ := Bool.and_eq_true_iff.1 hp
        exact cat_silent (ihrun p c a hp) fun c => ihrun q c a hq
      | alt p q =>
        obtain ⟨hp, hq⟩ := Bool.and_eq_true_iff.1 hp
        exact alt_silent (ihrun p c a hp) (ihrun q c a hq)
      | optional p | not p =>
        have hfirst := ihrun p c a hp
        simp only [run]
        rcases hx : g.run n .atomic p c a with ⟨v, a₁⟩
        rw [hx] at hfirst
        cases v <;> first | exact hfirst | rfl
      | star p => exact ihrep p c [] a hp
    · intro p c read a hp
      exact repeated_silent (ihrun p c a hp) fun c read => ihrep p c read a hp

end Reporting

/-! ### The matcher keeps track -/

/-- What the matcher keeps with a verdict: besides the failures before, those of the pattern, unless
the fuel ran out. -/
def Kept (g : RuleSet ρ) (S : ρ → Nat → Prop) (at_ : Atomicity) (p : Pattern ρ) (c : Cursor)
    (x : Verdict ρ × Attempts ρ) : Prop :=
  x.1 ≠ .exhausted → x.2.Tracks fun r o => S r o ∨ g.Missed at_ p c r o

variable {g : RuleSet ρ} {S : ρ → Nat → Prop} {at_ : Atomicity} {p q : Pattern ρ} {r : ρ}
  {c c' : Cursor} {ns : List (Node ρ)} {a : Attempts ρ}

theorem Kept.of_matched (h : g.Kept S at_ p c (.matched c' ns, a)) :
    a.Tracks fun r o => S r o ∨ g.Missed at_ p c r o := h fun hend => by cases hend

theorem Kept.of_failed (h : g.Kept S at_ p c (.failed, a)) :
    a.Tracks fun r o => S r o ∨ g.Missed at_ p c r o := h fun hend => by cases hend

theorem Kept.exhausted : g.Kept S at_ p c (.exhausted, a) := fun hends => absurd rfl hends

/-- A rule is reported if it fails, after what it calls. -/
theorem Kept.noted {at' : Atomicity} {before : Nat} {x : Verdict ρ × Attempts ρ}
    (hagrees : g.Agrees (g.atomicityIn r at_) (g.body r) c x.1)
    (hmode : g.mode r ≠ .silent) (hat : at_ ≠ .atomic) (hat' : at' ≠ .atomic)
    (h : g.Kept S (g.atomicityIn r at_) (g.body r) c x) :
    g.Kept S at_ (.rule r) c (noted r at' c before x) := by
  intro hends
  obtain ⟨v, a⟩ := x
  cases v with
  | matched c' ns =>
    have hcomes : g.Comes at_ (.rule r) c _ := .rule hagrees
    simp only [RuleSet.noted, if_neg hat']
    exact h.of_matched.congr fun r' o => or_congr_right (missed_rule_of_matched hcomes)
  | failed =>
    simp only [RuleSet.noted, if_neg hat']
    refine (h.of_failed.report r c.offset before).congr fun r' o => ?_
    have hfails : g.Comes at_ (.rule r) c none := .ruleFails hagrees
    rw [missed_rule]
    constructor
    · rintro (hS | ⟨rfl, rfl, -⟩ | hr)
      · exact .inl (.inl hS)
      · exact .inr ⟨rfl, rfl⟩
      · exact .inl (.inr hr)
    · rintro ((hS | hr) | ⟨rfl, rfl⟩)
      · exact .inl hS
      · exact .inr (.inr hr)
      · exact .inr (.inl ⟨rfl, rfl, hmode, hat, hfails⟩)
  | exhausted => exact absurd rfl hends

/-- **A rule keeps track** if its pattern does. -/
theorem Reporting.rule_tracks (R : g.Reporting) {n : Nat} (hat : at_ ≠ .atomic) (ha : a.Tracks S)
    (hbody : ∀ at', at' ≠ .atomic → (g.body r).isPositive = true →
      g.Kept S at' (g.body r) c (g.run n at' (g.body r) c a)) :
    g.Kept S at_ (.rule r) c (g.run (n + 1) at_ (.rule r) c a) := by
  have hagrees : ∀ at', g.Agrees at' (g.body r) c (g.run n at' (g.body r) c a).1 :=
    fun at' => (g.run_agrees n).1 at' (g.body r) c a
  simp only [run]
  cases hmode : g.mode r with
  | silent =>
    intro hends
    refine (hbody at_ hat (R.positive r (by simp [hmode])) hends).congr fun r' o => ?_
    rw [missed_rule_of_silent hmode, atomicityIn, hmode]
  | plain =>
    have hinside := hbody at_ hat (R.positive r (by simp [hmode]))
    refine Kept.noted ?_ (by simp [hmode]) hat hat ?_ <;> rw [atomicityIn, hmode]
    · exact hagrees at_
    · exact hinside
  | atomic =>
    -- nothing is kept of what is inside, and nothing there counts
    have hinside : g.Kept S .atomic (g.body r) c (g.run n .atomic (g.body r) c a) := by
      intro _
      rw [(R.token_silent n).1 _ c a (R.tokens r hmode)]
      exact ha.congr fun r' o => or_iff_left (R.not_missed (R.tokens r hmode))
    refine Kept.noted ?_ (by simp [hmode]) hat hat ?_ <;> rw [atomicityIn, hmode]
    · exact hagrees .atomic
    · exact hinside
  | compound =>
    have hne : Atomicity.compound ≠ .atomic := by decide
    have hinside := hbody .compound hne (R.positive r (by simp [hmode]))
    refine Kept.noted ?_ (by simp [hmode]) hat hne ?_ <;> rw [atomicityIn, hmode]
    · exact hagrees .compound
    · exact hinside

/-- What fails or matches without a call keeps what was kept. -/
theorem Kept.of_no_call {v : Verdict ρ} (ha : a.Tracks S)
    (hno : ∀ at' r' c', ¬ g.Calls at_ p c at' r' c') : g.Kept S at_ p c (v, a) := by
  intro _
  refine ha.congr fun r' o => or_iff_left ?_
  rintro ⟨at', c', hcalls, -⟩
  exact hno at' r' c' hcalls

/-- A pattern keeps what its part keeps if it misses the same. -/
theorem Kept.of_part {v : Verdict ρ} (h : a.Tracks fun r o => S r o ∨ g.Missed at_ p c r o)
    (hmissed : ∀ r o, g.Missed at_ q c' r o ↔ g.Missed at_ p c r o) :
    g.Kept S at_ q c' (v, a) := fun _ => h.congr fun r o => or_congr_right (hmissed r o)

/-- A pattern keeps what its second part keeps after the first if it misses what the two miss. -/
theorem Kept.of_parts {t : Pattern ρ} {x : Verdict ρ × Attempts ρ}
    (h : g.Kept (fun r o => S r o ∨ g.Missed at_ p c r o) at_ q c' x)
    (hmissed : ∀ r o, g.Missed at_ t c r o ↔ g.Missed at_ p c r o ∨ g.Missed at_ q c' r o) :
    g.Kept S at_ t c x := by
  intro hends
  refine (h hends).congr fun r o => ?_
  rw [hmissed, or_assoc]

section

variable {n : Nat}

/-- **A pattern and then another keep track.** The second starts with what the first keeps. -/
theorem cat_tracks (hp : g.Kept S at_ p c (g.run n at_ p c a))
    (hq : ∀ S c a, a.Tracks S → g.Kept S at_ q c (g.run n at_ q c a)) :
    g.Kept S at_ (.cat p q) c (g.run (n + 1) at_ (.cat p q) c a) := by
  have hcomes := (g.run_agrees n).1 at_ p c a
  simp only [run]
  rcases hx : g.run n at_ p c a with ⟨v, a₁⟩
  rw [hx] at hp hcomes
  cases v with
  | matched c₁ ns₁ =>
    have hsecond := (hq _ c₁ a₁ hp.of_matched).of_parts fun _ _ => missed_cat_of_matched hcomes
    simp only
    rcases hy : g.run n at_ q c₁ a₁ with ⟨v', a₂⟩
    rw [hy] at hsecond
    -- a second match is told with the nodes of both, which makes no difference here
    cases v' with
    | matched c₂ ns₂ => exact fun _ => hsecond.of_matched
    | failed => exact hsecond
    | exhausted => exact hsecond
  | failed => exact .of_part hp.of_failed fun _ _ => missed_cat_of_failed hcomes
  | exhausted => exact .exhausted

/-- **One pattern or another keep track.** -/
theorem alt_tracks (hp : g.Kept S at_ p c (g.run n at_ p c a))
    (hq : ∀ S a, a.Tracks S → g.Kept S at_ q c (g.run n at_ q c a)) :
    g.Kept S at_ (.alt p q) c (g.run (n + 1) at_ (.alt p q) c a) := by
  have hcomes := (g.run_agrees n).1 at_ p c a
  simp only [run]
  rcases hx : g.run n at_ p c a with ⟨v, a₁⟩
  rw [hx] at hp hcomes
  cases v with
  | matched c₁ ns₁ => exact .of_part hp.of_matched fun _ _ => missed_alt_of_matched hcomes
  | failed => exact (hq _ a₁ hp.of_failed).of_parts fun _ _ => missed_alt_of_failed hcomes
  | exhausted => exact .exhausted

/-- **A pattern that may fail keeps track.** -/
theorem optional_tracks (hp : g.Kept S at_ p c (g.run n at_ p c a)) :
    g.Kept S at_ (.optional p) c (g.run (n + 1) at_ (.optional p) c a) := by
  simp only [run]
  rcases hx : g.run n at_ p c a with ⟨v, a₁⟩
  rw [hx] at hp
  cases v with
  | matched c₁ ns₁ => exact .of_part hp.of_matched fun _ _ => missed_optional
  | failed => exact .of_part hp.of_failed fun _ _ => missed_optional
  | exhausted => exact .exhausted

/-- **A pattern that is repeated keeps track.** -/
theorem repeated_tracks {read : List (Node ρ)} (hp : g.Kept S at_ p c (g.run n at_ p c a))
    (hrest : ∀ S c read a, a.Tracks S → g.Kept S at_ (.star p) c (g.repeated n at_ p c read a)) :
    g.Kept S at_ (.star p) c (g.repeated (n + 1) at_ p c read a) := by
  have hcomes := (g.run_agrees n).1 at_ p c a
  simp only [repeated]
  rcases hx : g.run n at_ p c a with ⟨v, a₁⟩
  rw [hx] at hp hcomes
  cases v with
  | matched c₁ ns₁ =>
    exact (hrest _ c₁ _ a₁ hp.of_matched).of_parts fun _ _ => missed_star_of_matched hcomes
  | failed => exact .of_part hp.of_failed fun _ _ => missed_star_of_failed hcomes
  | exhausted => exact .exhausted

end

/-- **The matcher keeps track of failures.** -/
theorem Reporting.run_tracks (R : g.Reporting) (n : Nat) :
    (∀ at_ p c a S, at_ ≠ .atomic → p.isPositive = true → a.Tracks S →
      g.Kept S at_ p c (g.run n at_ p c a)) ∧
    ∀ at_ p c read a S, at_ ≠ .atomic → p.isPositive = true → a.Tracks S →
      g.Kept S at_ (.star p) c (g.repeated n at_ p c read a) := by
  induction n with
  | zero => exact ⟨fun _ _ _ _ _ _ _ _ => .exhausted, fun _ _ _ _ _ _ _ _ _ => .exhausted⟩
  | succ n ih =>
    obtain ⟨ihrun, ihrep⟩ := ih
    constructor
    · intro at_ p c a S hat hp ha
      cases p with
      | rule r => exact R.rule_tracks hat ha fun at' hat' hbody => ihrun at' _ c a S hat' hbody ha
      | text cs =>
        simp only [run]
        cases c.strip? cs <;> exact .of_no_call ha fun _ _ _ h => by cases h
      | char k =>
        obtain ⟨o, _ | ⟨x, rest⟩⟩ := c
        · exact .of_no_call ha fun _ _ _ h => by cases h
        · simp only [run]
          split <;> exact .of_no_call ha fun _ _ _ h => by cases h
      | blank => exact .of_no_call ha fun _ _ _ h => by cases h
      | finish =>
        simp only [run]
        split <;> exact .of_no_call ha fun _ _ _ h => by cases h
      | cat p q =>
        obtain ⟨hp, hq⟩ := Bool.and_eq_true_iff.1 hp
        exact cat_tracks (ihrun at_ p c a S hat hp ha) fun S c a => ihrun at_ q c a S hat hq
      | alt p q =>
        obtain ⟨hp, hq⟩ := Bool.and_eq_true_iff.1 hp
        exact alt_tracks (ihrun at_ p c a S hat hp ha) fun S a => ihrun at_ q c a S hat hq
      | optional p => exact optional_tracks (ihrun at_ p c a S hat hp ha)
      | star p => exact ihrep at_ p c [] a S hat hp ha
      | not p => cases hp
    · intro at_ p c read a S hat hp ha
      exact repeated_tracks (ihrun at_ p c a S hat hp ha) fun S c read a =>
        ihrep at_ p c read a S hat hp

end RuleSet

/-! ### The grammar of scripts -/

/-- **The failures of scripts are all reported.** -/
theorem script_reporting : script.Reporting where
  tokens r := by cases r <;> decide
  positive r := by cases r <;> decide

end ScriptModules.Grammar
