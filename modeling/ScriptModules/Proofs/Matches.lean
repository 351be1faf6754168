import ScriptModules.Grammar.Match

/-!
# What patterns come to

`RuleSet.Comes` says what a pattern comes to at a place, without fuel and without attempts: a match,
with the place behind it and its nodes, or none. A pattern comes to one result at most
(`Comes.unique`), and what the matcher answers is that result (`RuleSet.run_comes`), so a law of the
matcher is proved by giving a derivation.

A match never goes back (`Comes.length_le`), and offsets count the characters that it takes
(`Comes.offset`).
-/

namespace ScriptModules.Grammar

variable {ρ : Type}

namespace RuleSet

/-- How atomic the inside of a rule is. -/
def atomicityIn (g : RuleSet ρ) (r : ρ) (at_ : Atomicity) : Atomicity :=
  match g.mode r with
  | .silent | .plain => at_
  | .atomic => .atomic
  | .compound => .compound

/-- Whether a rule leaves a node. -/
def leaves (g : RuleSet ρ) (r : ρ) (at_ : Atomicity) : Bool :=
  match g.mode r with
  | .silent => false
  | .plain | .atomic => at_ ≠ .atomic
  | .compound => true

/-- The nodes that a rule leaves for a match of its pattern. -/
def nodesOf (g : RuleSet ρ) (r : ρ) (at_ : Atomicity) (start : Cursor) (stop : Nat)
    (ns : List (Node ρ)) : List (Node ρ) :=
  if g.leaves r at_ then [.mk r start stop ns] else ns

/-- **What a pattern comes to at a place:** the place behind the match and its nodes, or none. -/
inductive Comes (g : RuleSet ρ) :
    Atomicity → Pattern ρ → Cursor → Option (Cursor × List (Node ρ)) → Prop where
  | text {at_ cs} {c : Cursor} {c'} : c.strip? cs = some c' → Comes g at_ (.text cs) c (some (c', []))
  | textFails {at_ cs} {c : Cursor} : c.strip? cs = none → Comes g at_ (.text cs) c none
  | char {at_ k o x rest} : k.has x = true →
    Comes g at_ (.char k) ⟨o, x :: rest⟩ (some (⟨o + 1, rest⟩, []))
  | charFails {at_ k} {c : Cursor} : (∀ x rest, c.rest = x :: rest → k.has x = false) →
    Comes g at_ (.char k) c none
  | blank {at_} {c : Cursor} :
    Comes g at_ .blank c (some (if at_ = .loose then c.skipBlank else c, []))
  | finish {at_} {c : Cursor} : c.rest = [] → Comes g at_ .finish c (some (c, []))
  | finishFails {at_} {c : Cursor} : c.rest ≠ [] → Comes g at_ .finish c none
  | cat {at_ p q c c₁ c₂ ns₁ ns₂} : Comes g at_ p c (some (c₁, ns₁)) →
    Comes g at_ q c₁ (some (c₂, ns₂)) → Comes g at_ (.cat p q) c (some (c₂, ns₁ ++ ns₂))
  | catFails {at_ p q c} : Comes g at_ p c none → Comes g at_ (.cat p q) c none
  | catThenFails {at_ p q c c₁ ns₁} : Comes g at_ p c (some (c₁, ns₁)) → Comes g at_ q c₁ none →
    Comes g at_ (.cat p q) c none
  | altFirst {at_ p q c m} : Comes g at_ p c (some m) → Comes g at_ (.alt p q) c (some m)
  | altSecond {at_ p q c r} : Comes g at_ p c none → Comes g at_ q c r → Comes g at_ (.alt p q) c r
  | optional {at_ p c m} : Comes g at_ p c (some m) → Comes g at_ (.optional p) c (some m)
  | optionalNot {at_ p c} : Comes g at_ p c none → Comes g at_ (.optional p) c (some (c, []))
  | starEnd {at_ p c} : Comes g at_ p c none → Comes g at_ (.star p) c (some (c, []))
  | star {at_ p c c₁ c₂ ns₁ ns₂} : Comes g at_ p c (some (c₁, ns₁)) →
    Comes g at_ (.star p) c₁ (some (c₂, ns₂)) → Comes g at_ (.star p) c (some (c₂, ns₁ ++ ns₂))
  | not {at_ p c} : Comes g at_ p c none → Comes g at_ (.not p) c (some (c, []))
  | notFails {at_ p c m} : Comes g at_ p c (some m) → Comes g at_ (.not p) c none
  | rule {at_ r c c' ns} : Comes g (g.atomicityIn r at_) (g.body r) c (some (c', ns)) →
    Comes g at_ (.rule r) c (some (c', g.nodesOf r at_ c c'.offset ns))
  | ruleFails {at_ r c} : Comes g (g.atomicityIn r at_) (g.body r) c none → Comes g at_ (.rule r) c none

variable {g : RuleSet ρ} {at_ : Atomicity} {p : Pattern ρ} {c : Cursor}

/-- **A pattern comes to one result only.** -/
theorem Comes.unique {r r' : Option (Cursor × List (Node ρ))} (h : g.Comes at_ p c r)
    (h' : g.Comes at_ p c r') : r = r' := by
  -- where two derivations take different ways, they disagree on what the first part comes to
  induction h generalizing r' with
  | text h =>
    cases h' with
    | text h' =>
      cases h.symm.trans h'
      rfl
    | textFails h' => cases h.symm.trans h'
  | textFails h =>
    cases h' with
    | text h' => cases h.symm.trans h'
    | textFails _ => rfl
  | char h =>
    cases h' with
    | char _ => rfl
    | charFails h' =>
      rw [h' _ _ rfl] at h
      cases h
  | charFails h =>
    cases h' with
    | char h' =>
      rw [h _ _ rfl] at h'
      cases h'
    | charFails _ => rfl
  | blank =>
    cases h'
    rfl
  | finish h =>
    cases h' with
    | finish _ => rfl
    | finishFails h' => exact absurd h h'
  | finishFails h =>
    cases h' with
    | finish h' => exact absurd h' h
    | finishFails _ => rfl
  | cat _ _ ihp ihq =>
    cases h' with
    | cat hp hq =>
      cases ihp hp
      cases ihq hq
      rfl
    | catFails hp => cases ihp hp
    | catThenFails hp hq =>
      cases ihp hp
      cases ihq hq
  | catFails _ ihp =>
    cases h' with
    | cat hp _ | catThenFails hp _ => cases ihp hp
    | catFails _ => rfl
  | catThenFails _ _ ihp ihq =>
    cases h' with
    | cat hp hq =>
      cases ihp hp
      cases ihq hq
    | catFails hp => cases ihp hp
    | catThenFails _ _ => rfl
  | altFirst _ ih =>
    cases h' with
    | altFirst h => exact ih h
    | altSecond h _ => cases ih h
  | altSecond _ _ ihp ihq =>
    cases h' with
    | altFirst h => cases ihp h
    | altSecond _ h => exact ihq h
  | optional _ ih =>
    cases h' with
    | optional h => exact ih h
    | optionalNot h => cases ih h
  | optionalNot _ ih =>
    cases h' with
    | optional h => cases ih h
    | optionalNot _ => rfl
  | starEnd _ ih =>
    cases h' with
    | starEnd _ => rfl
    | star h _ => cases ih h
  | star _ _ ihp ihs =>
    cases h' with
    | starEnd h => cases ihp h
    | star hp hs =>
      cases ihp hp
      cases ihs hs
      rfl
  | not _ ih =>
    cases h' with
    | not _ => rfl
    | notFails h => cases ih h
  | notFails _ ih =>
    cases h' with
    | not h => cases ih h
    | notFails _ => rfl
  | rule _ ih =>
    cases h' with
    | rule h =>
      cases ih h
      rfl
    | ruleFails h => cases ih h
  | ruleFails _ ih =>
    cases h' with
    | rule h => cases ih h
    | ruleFails _ => rfl

/-! ### The matcher -/

/-- What a pattern comes to, unless the fuel ran out. -/
def Agrees (g : RuleSet ρ) (at_ : Atomicity) (p : Pattern ρ) (c : Cursor) : Verdict ρ → Prop
  | .matched c' ns => g.Comes at_ p c (some (c', ns))
  | .failed => g.Comes at_ p c none
  | .exhausted => True

/-- Noting the end of a rule keeps what its pattern comes to. -/
theorem noted_agrees {r : ρ} {before : Nat} {x : Verdict ρ × Attempts ρ} {at' : Atomicity}
    (hleaves : g.leaves r at_ = decide (at' ≠ .atomic))
    (h : g.Agrees (g.atomicityIn r at_) (g.body r) c x.1) :
    g.Agrees at_ (.rule r) c (noted r at' c before x).1 := by
  obtain ⟨v, a⟩ := x
  cases v with
  | matched c' ns =>
    have hrule : g.Comes at_ (.rule r) c (some (c', g.nodesOf r at_ c c'.offset ns)) := .rule h
    unfold nodesOf at hrule
    rw [hleaves] at hrule
    unfold noted
    by_cases hat : at' = .atomic
    · simpa [hat, Agrees] using hrule
    · simpa [hat, Agrees] using hrule
  | failed => exact Comes.ruleFails h
  | exhausted => exact trivial

/-- What repeating a pattern comes to, behind the nodes that were read before. -/
def AgreesRepeated (g : RuleSet ρ) (at_ : Atomicity) (p : Pattern ρ) (c : Cursor)
    (read : List (Node ρ)) : Verdict ρ → Prop
  | .matched c' ns => ∃ ns', ns = read.reverse ++ ns' ∧ g.Comes at_ (.star p) c (some (c', ns'))
  | .failed => False
  | .exhausted => True

/-- A rule is noted as its mode says. -/
theorem rule_agrees {r : ρ} {n : Nat} (a : Attempts ρ)
    (h : ∀ at', g.Agrees at' (g.body r) c (g.run n at' (g.body r) c a).1) :
    g.Agrees at_ (.rule r) c (g.run (n + 1) at_ (.rule r) c a).1 := by
  have hnoted : ∀ at', g.leaves r at_ = decide (at' ≠ .atomic) →
      g.Agrees at_ (.rule r) c
        (noted r at' c (a.count c.offset) (g.run n (g.atomicityIn r at_) (g.body r) c a)).1 :=
    fun at' hleaves => noted_agrees hleaves (h _)
  simp only [run]
  cases hmode : g.mode r with
  | silent =>
    have hbody := h at_
    cases hx : (g.run n at_ (g.body r) c a).1 with
    | matched c' ns =>
      rw [hx] at hbody
      have hrule : g.Comes at_ (.rule r) c (some (c', g.nodesOf r at_ c c'.offset ns)) :=
        .rule (by rw [atomicityIn, hmode]; exact hbody)
      rw [nodesOf, leaves, hmode] at hrule
      simpa [hx, Agrees] using hrule
    | failed =>
      rw [hx] at hbody
      have hrule : g.Comes at_ (.rule r) c none := .ruleFails (by rw [atomicityIn, hmode]; exact hbody)
      simpa [hx, Agrees] using hrule
    | exhausted => simp [Agrees]
  | plain =>
    have := hnoted at_ (by rw [leaves, hmode])
    rwa [atomicityIn, hmode] at this
  | atomic =>
    have := hnoted at_ (by rw [leaves, hmode])
    rwa [atomicityIn, hmode] at this
  | compound =>
    have := hnoted .compound (by rw [leaves, hmode]; rfl)
    rwa [atomicityIn, hmode] at this

/-! One lemma for each way of putting patterns together: if the parts agree with less fuel, so does the
whole. -/

section

-- the equations of the matcher are made once here, for all the lemmas of this section
attribute [local simp] run repeated

variable {q : Pattern ρ} {n : Nat} (a : Attempts ρ)

theorem text_agrees (cs : List Char) : g.Agrees at_ (.text cs) c (g.run (n + 1) at_ (.text cs) c a).1 := by
  simp only [run]
  cases hc : c.strip? cs with
  | some c' => exact .text hc
  | none => exact .textFails hc

theorem char_agrees (k : CharClass) : g.Agrees at_ (.char k) c (g.run (n + 1) at_ (.char k) c a).1 := by
  obtain ⟨o, _ | ⟨x, rest⟩⟩ := c
  · exact .charFails nofun
  · simp only [run]
    split
    · next hx => exact .char hx
    · next hx =>
      refine .charFails fun x' rest' he => ?_
      obtain ⟨rfl, rfl⟩ := List.cons.inj he
      exact Bool.eq_false_iff.2 hx

theorem finish_agrees : g.Agrees at_ .finish c (g.run (n + 1) at_ .finish c a).1 := by
  obtain ⟨o, _ | ⟨x, rest⟩⟩ := c
  · exact .finish rfl
  · exact .finishFails (List.cons_ne_nil x rest)

theorem cat_agrees (hp : g.Agrees at_ p c (g.run n at_ p c a).1)
    (hq : ∀ c₁ a₁, g.Agrees at_ q c₁ (g.run n at_ q c₁ a₁).1) :
    g.Agrees at_ (.cat p q) c (g.run (n + 1) at_ (.cat p q) c a).1 := by
  simp only [run]
  rcases hx : g.run n at_ p c a with ⟨v, a₁⟩
  rw [hx] at hp
  cases v with
  | matched c₁ ns₁ =>
    have hq := hq c₁ a₁
    simp only
    rcases hy : g.run n at_ q c₁ a₁ with ⟨v', a₂⟩
    rw [hy] at hq
    cases v' with
    | matched c₂ ns₂ => exact .cat hp hq
    | failed => exact .catThenFails hp hq
    | exhausted => trivial
  | failed => exact .catFails hp
  | exhausted => trivial

theorem alt_agrees (hp : g.Agrees at_ p c (g.run n at_ p c a).1)
    (hq : ∀ a₁, g.Agrees at_ q c (g.run n at_ q c a₁).1) :
    g.Agrees at_ (.alt p q) c (g.run (n + 1) at_ (.alt p q) c a).1 := by
  simp only [run]
  rcases hx : g.run n at_ p c a with ⟨v, a₁⟩
  rw [hx] at hp
  cases v with
  | matched c₁ ns₁ => exact .altFirst hp
  | failed =>
    have hq := hq a₁
    simp only
    rcases hy : g.run n at_ q c a₁ with ⟨v', a₂⟩
    rw [hy] at hq
    cases v' with
    | matched c₂ ns₂ => exact .altSecond hp hq
    | failed => exact .altSecond hp hq
    | exhausted => trivial
  | exhausted => trivial

theorem optional_agrees (hp : g.Agrees at_ p c (g.run n at_ p c a).1) :
    g.Agrees at_ (.optional p) c (g.run (n + 1) at_ (.optional p) c a).1 := by
  simp only [run]
  rcases hx : g.run n at_ p c a with ⟨v, a₁⟩
  rw [hx] at hp
  cases v with
  | matched c₁ ns₁ => exact .optional hp
  | failed => exact .optionalNot hp
  | exhausted => trivial

theorem not_agrees (hp : g.Agrees at_ p c (g.run n at_ p c a).1) :
    g.Agrees at_ (.not p) c (g.run (n + 1) at_ (.not p) c a).1 := by
  simp only [run]
  rcases hx : g.run n at_ p c a with ⟨v, a₁⟩
  rw [hx] at hp
  cases v with
  | matched c₁ ns₁ => exact .notFails hp
  | failed => exact .not hp
  | exhausted => trivial

/-- A star is a repetition with nothing read before. -/
theorem star_agrees (hp : g.AgreesRepeated at_ p c [] (g.repeated n at_ p c [] a).1) :
    g.Agrees at_ (.star p) c (g.run (n + 1) at_ (.star p) c a).1 := by
  simp only [run]
  rcases hx : g.repeated n at_ p c [] a with ⟨v, a₁⟩
  rw [hx] at hp
  cases v with
  | matched c₁ ns₁ =>
    obtain ⟨ns, rfl, hs⟩ := hp
    exact hs
  | failed => exact hp.elim
  | exhausted => trivial

/-- One match more, and then the repetition goes on behind its nodes. -/
theorem repeated_agrees {read : List (Node ρ)} (hp : g.Agrees at_ p c (g.run n at_ p c a).1)
    (hs : ∀ c₁ read' a₁, g.AgreesRepeated at_ p c₁ read' (g.repeated n at_ p c₁ read' a₁).1) :
    g.AgreesRepeated at_ p c read (g.repeated (n + 1) at_ p c read a).1 := by
  simp only [repeated]
  rcases hx : g.run n at_ p c a with ⟨v, a₁⟩
  rw [hx] at hp
  cases v with
  | matched c₁ ns₁ =>
    have hs := hs c₁ (ns₁.reverse ++ read) a₁
    simp only
    rcases hy : g.repeated n at_ p c₁ (ns₁.reverse ++ read) a₁ with ⟨v', a₂⟩
    rw [hy] at hs
    cases v' with
    | matched c₂ ns₂ =>
      -- the nodes of this match stand between those read before and those to come
      obtain ⟨ns, rfl, hs⟩ := hs
      refine ⟨ns₁ ++ ns, ?_, .star hp hs⟩
      rw [List.reverse_append, List.reverse_reverse, List.append_assoc]
    | failed => exact hs.elim
    | exhausted => trivial
  | failed => exact ⟨[], (List.append_nil _).symm, .starEnd hp⟩
  | exhausted => trivial

end

/-- **The matcher answers what the pattern comes to.** -/
theorem run_agrees (n : Nat) :
    (∀ at_ p c a, g.Agrees at_ p c (g.run n at_ p c a).1) ∧
    ∀ at_ p c read a, g.AgreesRepeated at_ p c read (g.repeated n at_ p c read a).1 := by
  induction n with
  | zero => exact ⟨fun _ _ _ _ => trivial, fun _ _ _ _ _ => trivial⟩
  | succ n ih =>
    obtain ⟨ihrun, ihrep⟩ := ih
    constructor
    · intro at_ p c a
      cases p with
      | rule r => exact rule_agrees a fun at' => ihrun at' _ c a
      | text cs => exact text_agrees a cs
      | char k => exact char_agrees a k
      | blank => exact .blank
      | finish => exact finish_agrees a
      | cat p q => exact cat_agrees a (ihrun at_ p c a) (ihrun at_ q)
      | alt p q => exact alt_agrees a (ihrun at_ p c a) (ihrun at_ q c)
      | optional p => exact optional_agrees a (ihrun at_ p c a)
      | star p => exact star_agrees a (ihrep at_ p c [] a)
      | not p => exact not_agrees a (ihrun at_ p c a)
    · intro at_ p c read a
      exact repeated_agrees a (ihrun at_ p c a) (ihrep at_ p)

end RuleSet

/-! ### Places -/

/-- A place further on in the same text; its offset counts the characters between. -/
def Cursor.Reaches (c c' : Cursor) : Prop :=
  ∃ taken, c.rest = taken ++ c'.rest ∧ c'.offset = c.offset + taken.length

namespace Cursor.Reaches

variable {c c₁ c₂ : Cursor}

theorem refl (c : Cursor) : c.Reaches c := ⟨[], rfl, rfl⟩

theorem trans (h : c.Reaches c₁) (h' : c₁.Reaches c₂) : c.Reaches c₂ := by
  obtain ⟨taken, hrest, hoffset⟩ := h
  obtain ⟨taken', hrest', hoffset'⟩ := h'
  refine ⟨taken ++ taken', ?_, ?_⟩
  · rw [hrest, hrest', List.append_assoc]
  · rw [hoffset', hoffset, List.length_append, Nat.add_assoc]

/-- One character is taken first. -/
theorem step {o : Nat} {x : Char} {rest : List Char} (h : Cursor.Reaches ⟨o + 1, rest⟩ c) :
    Cursor.Reaches ⟨o, x :: rest⟩ c := by
  have hx : Cursor.Reaches ⟨o, x :: rest⟩ ⟨o + 1, rest⟩ := ⟨[x], rfl, rfl⟩
  exact hx.trans h

theorem length_le (h : c.Reaches c₁) : c₁.rest.length ≤ c.rest.length := by
  obtain ⟨taken, hrest, -⟩ := h
  rw [hrest, List.length_append]
  exact Nat.le_add_left _ _

/-- The characters between the two places. -/
theorem take_eq (h : c.Reaches c₁) {taken : List Char} (ht : c.rest = taken ++ c₁.rest) :
    c.rest.take (c₁.offset - c.offset) = taken := by
  obtain ⟨taken', hrest, hoffset⟩ := h
  obtain rfl : taken' = taken := List.append_cancel_right (hrest.symm.trans ht)
  rw [hoffset, Nat.add_sub_cancel_left, ht, List.take_left]

end Cursor.Reaches

/-- Blank is skipped forwards. -/
theorem skipBlank_reaches (n : Nat) (s : List Char) :
    Cursor.Reaches ⟨n, s⟩ (skipBlank n s) := by
  refine skipBlank.induct
    (fun n s => Cursor.Reaches ⟨n, s⟩ (skipBlank n s))
    (fun start n s => start.Reaches ⟨n, s⟩ → start.Reaches (skipBlock start n s))
    (fun n s => Cursor.Reaches ⟨n, s⟩ (skipLine n s)) ?_ ?_ ?_ ?_ ?_ ?_ ?_ ?_ ?_ ?_ ?_ n s
  · intro n rest ih
    rw [skipBlank]
    exact .step (.step ih)
  -- inside a comment between stars the place is compared with that of its beginning
  · intro n rest ih
    rw [skipBlank]
    exact ih (.step (.step (.refl _)))
  · intro n c rest hline hblock hc ih
    rw [skipBlank.eq_3 n c rest hline hblock, if_pos hc]
    exact .step ih
  · intro n c rest hline hblock hc
    rw [skipBlank.eq_3 n c rest hline hblock, if_neg hc]
    exact .refl _
  · intro n
    exact .refl _
  · intro start n rest ih hstart
    rw [skipBlock]
    exact hstart.trans (.step (.step ih))
  · intro start n c rest hc ih hstart
    rw [skipBlock.eq_2 start n c rest hc]
    exact ih (hstart.trans (.step (.refl _)))
  · intro start n hstart
    exact .refl _
  · intro n rest ih
    rw [skipLine]
    exact .step ih
  · intro n c rest hc ih
    rw [skipLine.eq_2 n c rest hc]
    exact .step ih
  · intro n
    exact .refl _

theorem Cursor.strip?_reaches {c c' : Cursor} {cs : List Char} (h : c.strip? cs = some c') :
    c.Reaches c' ∧ c.rest = cs ++ c'.rest := by
  unfold strip? at h
  split at h
  · next hcs =>
    obtain ⟨rest, hrest⟩ := List.isPrefixOf_iff_prefix.1 hcs
    cases h
    have : c.rest = cs ++ c.rest.drop cs.length := by rw [← hrest, List.drop_left]
    exact ⟨⟨cs, this, rfl⟩, this⟩
  · cases h

namespace RuleSet

variable {g : RuleSet ρ} {at_ : Atomicity} {p : Pattern ρ} {c c' : Cursor} {ns : List (Node ρ)}

/-- **A match goes forwards.** -/
theorem Comes.reaches (h : g.Comes at_ p c (some (c', ns))) : c.Reaches c' := by
  generalize hr : some (c', ns) = r at h
  -- what looks ahead stays where it is, and only texts, characters and blank move on
  induction h generalizing c' ns with
  | text h =>
    cases hr
    exact (Cursor.strip?_reaches h).1
  | char _ =>
    cases hr
    exact .step (.refl _)
  | @blank at_ c =>
    cases hr
    split
    · exact skipBlank_reaches c.offset c.rest
    · exact .refl _
  | cat _ _ ihp ihq =>
    cases hr
    exact (ihp rfl).trans (ihq rfl)
  | star _ _ ihp ihs =>
    cases hr
    exact (ihp rfl).trans (ihs rfl)
  | altFirst _ ih | altSecond _ _ _ ih | optional _ ih => exact ih hr
  | rule _ ih =>
    cases hr
    exact ih rfl
  | finish _ | optionalNot _ _ | starEnd _ _ | not _ _ =>
    cases hr
    exact .refl _
  | textFails _ | charFails _ | finishFails _ | catFails _ _ | catThenFails _ _ _ _ | notFails _ _
  | ruleFails _ _ => cases hr

end RuleSet

end ScriptModules.Grammar
