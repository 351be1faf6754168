import ScriptModules.Proofs.Reading

/-!
# Words and numbers

A rule takes a word if it matches exactly that word. What it takes alone, it also takes as a token
of a longer text (`Takes.reads`), because nothing that such a rule looks at is white space. No word
that the rule of identifiers takes is one of the keywords, so the rules of keywords fail there
(`keyword_fails`). What a rule takes can be computed (`takes_iff`).
-/

namespace ScriptModules.Grammar

variable {ρ : Type}

/-- What the pattern looks at does not go beyond a token; `known` are rules of this kind. -/
def Pattern.staysInside (known : ρ → Bool) : Pattern ρ → Bool
  | rule r => known r
  | text cs => !cs.any isSpace
  | char k => !spaces.any k.has
  | blank => true
  | finish => false
  | cat p q => p.staysInside known && q.staysInside known
  | alt p q => p.staysInside known && q.staysInside known
  | optional p => p.staysInside known
  | star p => p.staysInside known
  | not p => p.staysInside known

/-- A place in a text that `k` characters are put before and `tail` behind. -/
def Cursor.moved (k : Nat) (tail : List Char) (c : Cursor) : Cursor :=
  ⟨k + c.offset, c.rest ++ tail⟩

namespace RuleSet

/-- **The rule matches exactly this text.** -/
def Takes (g : RuleSet ρ) (r : ρ) (x : List Char) : Prop :=
  ∃ o ns, g.Comes .loose (.rule r) (.start x) (some (⟨o, []⟩, ns))

section

variable {g : RuleSet ρ} {known : ρ → Bool} {tail : List Char}

theorem atomicityIn_ne_loose {at_ : Atomicity} (h : at_ ≠ .loose) (r : ρ) : g.atomicityIn r at_ ≠ .loose := by
  unfold atomicityIn
  cases g.mode r with
  | silent | plain => exact h
  | atomic | compound => exact fun h => by cases h

/-- What a pattern comes to in the longer text, if it comes to `r` in the token: the same, at the moved
place. The nodes remember where they stand, so they are others. -/
def ComesMoved (g : RuleSet ρ) (k : Nat) (tail : List Char) (at_ : Atomicity) (p : Pattern ρ)
    (c : Cursor) : Option (Cursor × List (Node ρ)) → Prop
  | some (c', _) => ∃ ns, g.Comes at_ p (c.moved k tail) (some (c'.moved k tail, ns))
  | none => g.Comes at_ p (c.moved k tail) none

/-- What is stripped off a token is stripped off the longer text. -/
theorem strip?_moved {cs : List Char} {c c' : Cursor} (h : c.strip? cs = some c') (k : Nat) :
    (c.moved k tail).strip? cs = some (c'.moved k tail) := by
  obtain ⟨⟨taken, htaken, hoffset⟩, hrest⟩ := Cursor.strip?_reaches h
  obtain rfl : taken = cs := List.append_cancel_right (htaken.symm.trans hrest)
  have hpre : taken.isPrefixOf (c.rest ++ tail) = true :=
    List.isPrefixOf_iff_prefix.2 ⟨c'.rest ++ tail, by rw [hrest, List.append_assoc]⟩
  rw [Cursor.strip?, Cursor.moved, if_pos hpre, Cursor.moved, hoffset, hrest, List.append_assoc,
    List.drop_left, Nat.add_assoc]

/-- What is not there in a token does not begin in it either, for it would reach into the blank. -/
theorem strip?_moved_eq_none (hedge : Edge tail) {cs : List Char} (hcs : cs.any isSpace = false)
    {c : Cursor} (h : c.strip? cs = none) (k : Nat) : (c.moved k tail).strip? cs = none := by
  refine if_neg fun hpre => ?_
  have hpre := prefix_of_token hedge hcs (List.isPrefixOf_iff_prefix.1 hpre)
  rw [Cursor.strip?, if_pos (List.isPrefixOf_iff_prefix.2 hpre)] at h
  cases h

/-- The first character behind a place of the token is one of the token, or blank. -/
theorem not_has_moved (hedge : Edge tail) {cl : CharClass} (hcl : spaces.any cl.has = false)
    {c : Cursor} (h : ∀ x rest, c.rest = x :: rest → cl.has x = false) {k : Nat} {x : Char}
    {rest : List Char} (he : (c.moved k tail).rest = x :: rest) : cl.has x = false := by
  cases hc : c.rest with
  | nil =>
    rw [Cursor.moved, hc, List.nil_append] at he
    have hspace := isSpace_iff.1 (hedge x rest he)
    simpa using List.any_eq_false.1 hcl x hspace
  | cons y rest' =>
    rw [Cursor.moved, hc, List.cons_append] at he
    rw [← (List.cons.inj he).1]
    exact h y rest' hc

/-- **A token is matched before blank as it is alone.** -/
theorem Comes.moved (hknown : ∀ r, known r = true → (g.body r).staysInside known = true)
    (hedge : Edge tail) (k : Nat) {at_ : Atomicity} {p : Pattern ρ} {c : Cursor}
    {r : Option (Cursor × List (Node ρ))} (h : g.Comes at_ p c r) (hat : at_ ≠ .loose)
    (hp : p.staysInside known = true) : g.ComesMoved k tail at_ p c r := by
  induction h with
  | text h => exact ⟨[], .text (strip?_moved h k)⟩
  | textFails h =>
    exact .textFails (strip?_moved_eq_none hedge (by simpa [Pattern.staysInside] using hp) h k)
  | char h => exact ⟨[], .char h⟩
  | charFails h =>
    exact .charFails fun _ _ => not_has_moved hedge (by simpa [Pattern.staysInside] using hp) h
  | @blank at_ c =>
    have hblank : g.Comes at_ .blank (c.moved k tail) _ := .blank
    rw [if_neg hat] at hblank
    rw [if_neg hat]
    exact ⟨[], hblank⟩
  | finish _ | finishFails _ => cases hp
  -- the parts of a pattern stay inside as the whole does, so the hypotheses are about them
  | cat _ _ ihp ihq =>
    obtain ⟨hp, hq⟩ := Bool.and_eq_true_iff.1 hp
    obtain ⟨ns₁, h₁⟩ := ihp hat hp
    obtain ⟨ns₂, h₂⟩ := ihq hat hq
    exact ⟨_, .cat h₁ h₂⟩
  | catFails _ ihp => exact .catFails (ihp hat (Bool.and_eq_true_iff.1 hp).1)
  | catThenFails _ _ ihp ihq =>
    obtain ⟨hp, hq⟩ := Bool.and_eq_true_iff.1 hp
    obtain ⟨ns₁, h₁⟩ := ihp hat hp
    exact .catThenFails h₁ (ihq hat hq)
  | altFirst _ ih =>
    obtain ⟨ns, h⟩ := ih hat (Bool.and_eq_true_iff.1 hp).1
    exact ⟨ns, .altFirst h⟩
  | @altSecond _ _ _ _ r _ _ ihp ihq =>
    obtain ⟨hp, hq⟩ := Bool.and_eq_true_iff.1 hp
    have h₁ := ihp hat hp
    have h₂ := ihq hat hq
    cases r with
    | none => exact .altSecond h₁ h₂
    | some m =>
      obtain ⟨ns, h₂⟩ := h₂
      exact ⟨ns, .altSecond h₁ h₂⟩
  | optional _ ih =>
    obtain ⟨ns, h⟩ := ih hat hp
    exact ⟨ns, .optional h⟩
  | optionalNot _ ih => exact ⟨[], .optionalNot (ih hat hp)⟩
  | starEnd _ ih => exact ⟨[], .starEnd (ih hat hp)⟩
  | star _ _ ihp ihs =>
    obtain ⟨ns₁, h₁⟩ := ihp hat hp
    obtain ⟨ns₂, h₂⟩ := ihs hat hp
    exact ⟨_, .star h₁ h₂⟩
  | not _ ih => exact ⟨[], .not (ih hat hp)⟩
  | notFails _ ih =>
    obtain ⟨ns, h⟩ := ih hat hp
    exact .notFails h
  -- inside a rule blank is no more skipped than around it
  | rule _ ih =>
    obtain ⟨ns, h⟩ := ih (atomicityIn_ne_loose hat _) (hknown _ hp)
    exact ⟨_, .rule h⟩
  | ruleFails _ ih => exact .ruleFails (ih (atomicityIn_ne_loose hat _) (hknown _ hp))

/-- A node of the rule with exactly these characters. -/
def WordOf (r : ρ) (x : List Char) (n : Node ρ) : Prop := n.rule = r ∧ n.chars = x

/-- What a rule leaves for a token. -/
theorem Comes.word {r : ρ} {o : Nat} {x : List Char} {c : Cursor} {ns : List (Node ρ)}
    (h : g.Comes .loose (.rule r) ⟨o, x ++ tail⟩ (some (c, ns))) (hc : c.rest = tail)
    (hleaves : g.leaves r .loose = true) : Sole (WordOf r x) ns := by
  have hreaches := h.reaches
  cases h with
  | @rule _ _ _ _ ns _ =>
    refine ⟨.mk r ⟨o, x ++ tail⟩ c.offset ns, ?_, rfl, ?_⟩
    · rw [nodesOf, if_pos hleaves]
    · exact hreaches.take_eq (by rw [hc])

/-- **What a rule takes, it reads as a token of a longer text.** -/
theorem Takes.reads (hknown : ∀ r, known r = true → (g.body r).staysInside known = true) {r : ρ}
    (hmode : g.mode r = .atomic) (hr : known r = true) {x m : List Char} (h : g.Takes r x)
    (hedge : Edge tail) (hm : ∀ n, (skipBlank n tail).rest = m) :
    g.Reads (.rule r) (x ++ tail) m (Sole (WordOf r x)) := by
  intro k
  obtain ⟨o, _, h⟩ := h
  cases h with
  | rule h =>
    have hinner : g.atomicityIn r .loose ≠ .loose := by
      rw [atomicityIn, hmode]
      exact fun h => by cases h
    obtain ⟨ns, h⟩ := h.moved hknown hedge k hinner (hknown r hr)
    have hrule := Comes.rule h
    refine ⟨_, _, hrule, hm _, hrule.word rfl ?_⟩
    rw [leaves, hmode]
    rfl

end

/-! ### Identifiers and keywords -/

/-- The characters that a class takes one after the other. -/
theorem Comes.chars {g : RuleSet ρ} {at_ : Atomicity} {k : CharClass} {c c' : Cursor}
    {ns : List (Node ρ)} (hat : at_ ≠ .loose)
    (h : g.Comes at_ (.star (.cat .blank (.char k))) c (some (c', ns))) :
    ∃ taken, c.rest = taken ++ c'.rest ∧ ∀ x ∈ taken, k.has x = true := by
  generalize hp : Pattern.star (.cat .blank (.char k)) = p at h
  generalize hr : some (c', ns) = r at h
  induction h generalizing c' ns with
  | starEnd _ _ =>
    cases hr
    exact ⟨[], rfl, by simp⟩
  | star h _ _ ih =>
    cases hp
    cases hr
    obtain ⟨taken, htaken, hk⟩ := ih hat rfl rfl
    cases h with
    | cat hblank hchar =>
      -- no blank is skipped inside a token
      cases hblank
      rw [if_neg hat] at hchar
      cases hchar with
      | @char _ _ _ x rest hx =>
        refine ⟨x :: taken, ?_, ?_⟩
        · rw [List.cons_append, ← htaken]
        · simpa [hx] using hk
  | _ => cases hp

/-- Inside a token one pattern stands directly behind the other, and so do their nodes. -/
theorem Comes.next_nodes {g : RuleSet ρ} {at_ : Atomicity} {p q : Pattern ρ} {c c' : Cursor}
    {ns : List (Node ρ)} (hat : at_ ≠ .loose) (h : g.Comes at_ (.next p q) c (some (c', ns))) :
    ∃ c₁ ns₁ ns₂, g.Comes at_ p c (some (c₁, ns₁)) ∧ g.Comes at_ q c₁ (some (c', ns₂)) ∧
      ns = ns₁ ++ ns₂ := by
  cases h with
  | cat hp h =>
    cases h with
    | cat hblank hq =>
      cases hblank
      rw [if_neg hat] at hq
      exact ⟨_, _, _, hp, hq, rfl⟩

theorem Comes.next_parts {g : RuleSet ρ} {at_ : Atomicity} {p q : Pattern ρ} {c c' : Cursor}
    {ns : List (Node ρ)} (hat : at_ ≠ .loose) (h : g.Comes at_ (.next p q) c (some (c', ns))) :
    ∃ c₁ ns₁ ns₂, g.Comes at_ p c (some (c₁, ns₁)) ∧ g.Comes at_ q c₁ (some (c', ns₂)) := by
  obtain ⟨c₁, ns₁, ns₂, hp, hq, -⟩ := h.next_nodes hat
  exact ⟨c₁, ns₁, ns₂, hp, hq⟩

/-- A character of one class and then any number of another. -/
theorem Comes.headed {g : RuleSet ρ} {at_ : Atomicity} {k k' : CharClass} {c c' : Cursor}
    {ns : List (Node ρ)} (hat : at_ ≠ .loose)
    (h : g.Comes at_ (.next (.char k) (.many (.char k'))) c (some (c', ns))) :
    ∃ x xs, c.rest = x :: (xs ++ c'.rest) ∧ k.has x = true ∧ ∀ y ∈ xs, k'.has y = true := by
  obtain ⟨c₁, ns₁, ns₂, hhead, htail⟩ := h.next_parts hat
  cases hhead with
  | @char _ _ _ x rest hx =>
    cases htail with
    | optionalNot _ => exact ⟨x, [], rfl, hx, by simp⟩
    | optional htail =>
      cases htail with
      | cat hfirst hrest =>
        cases hfirst with
        | @char _ _ _ y rest hy =>
          obtain ⟨ys, hys, hk⟩ := hrest.chars hat
          refine ⟨x, y :: ys, ?_, hx, by simpa [hy] using hk⟩
          rw [List.cons_append, ← hys]

end RuleSet

open RuleSet

/-- Whether the rule matches exactly this text, by running the matcher. -/
def takes (r : Rule) (x : List Char) : Bool :=
  match (script.run (matchFuel x.length) .loose (.rule r) (.start x) {}).1 with
  | .matched c _ => c.rest.isEmpty
  | _ => false

/-- **What a rule takes can be computed.** -/
theorem takes_iff {r : Rule} {x : List Char} : script.Takes r x ↔ takes r x = true := by
  unfold takes
  cases hv : (script.run (matchFuel x.length) .loose (.rule r) (.start x) {}).1 with
  | matched c ns =>
    have hcomes := matched_iff_comes.1 hv
    constructor
    · rintro ⟨o, ns', h⟩
      cases hcomes.unique h
      rfl
    · intro hc
      refine ⟨c.offset, ns, ?_⟩
      rwa [← List.isEmpty_iff.1 hc]
  | failed | exhausted =>
    constructor
    · rintro ⟨o, ns, h⟩
      rw [matched_iff_comes.2 h] at hv
      cases hv
    · rintro ⟨⟩

instance {r : Rule} {x : List Char} : Decidable (script.Takes r x) :=
  decidable_of_iff _ takes_iff.symm

/-- The parts of what a rule of tokens takes. -/
theorem Takes.body {r : Rule} {x : List Char} (hmode : script.mode r = .atomic)
    (h : script.Takes r x) :
    ∃ o ns, script.Comes .atomic (script.body r) (.start x) (some (⟨o, []⟩, ns)) := by
  obtain ⟨o, _, h⟩ := h
  cases h with
  | rule h =>
    rw [atomicityIn, hmode] at h
    exact ⟨o, _, h⟩

/-- A name begins with a letter or one of two signs, and goes on with those and digits. -/
theorem name_shape {x : List Char} (h : script.Takes .identifierName x) :
    ∃ y ys, x = y :: ys ∧ CharClass.nameStart.has y = true ∧
      ∀ z ∈ ys, CharClass.namePart.has z = true := by
  obtain ⟨o, ns, h⟩ := Takes.body rfl h
  obtain ⟨y, ys, hx, hy, hys⟩ := Comes.headed (by decide) h
  exact ⟨y, ys, by simpa [Cursor.start] using hx, hy, hys⟩

/-- An identifier is a name. -/
theorem identifier_isName {x : List Char} (h : script.Takes .identifier x) :
    script.Takes .identifierName x := by
  obtain ⟨o, ns, h⟩ := Takes.body rfl h
  obtain ⟨c₁, _, ns₂, hnot, hname⟩ := Comes.next_parts (by decide) h
  cases hnot with
  | not _ =>
    have hrule : script.Comes .loose (.rule .identifierName) _ _ := .rule hname
    exact ⟨o, _, hrule⟩

/-- A number begins with a digit. -/
theorem number_shape {x : List Char} (h : script.Takes .numberLiteral x) :
    ∃ y ys, x = y :: ys ∧ CharClass.digit.has y = true := by
  obtain ⟨o, ns, h⟩ := Takes.body rfl h
  obtain ⟨c₁, _, _, hdigits, -⟩ := Comes.next_parts (by decide) h
  obtain ⟨y, ys, hx, hy, -⟩ := Comes.headed (by decide) hdigits
  exact ⟨y, _, hx, hy⟩

/-- The words that a pattern matches, if it is a choice between words. -/
def Pattern.words? : Pattern ρ → Option (List (List Char))
  | text cs => some [cs]
  | alt p q => do return (← p.words?) ++ (← q.words?)
  | _ => none

theorem RuleSet.Comes.word_mem {g : RuleSet ρ} {at_ : Atomicity} {p : Pattern ρ} {c c' : Cursor}
    {ns : List (Node ρ)} (h : g.Comes at_ p c (some (c', ns))) {ws : List (List Char)}
    (hp : p.words? = some ws) : ∃ w ∈ ws, c.rest = w ++ c'.rest := by
  generalize hr : some (c', ns) = r at h
  induction h generalizing c' ns ws with
  | text h =>
    cases hr
    cases hp
    exact ⟨_, List.mem_singleton_self _, (Cursor.strip?_reaches h).2⟩
  | altFirst _ ih =>
    simp only [Pattern.words?, Option.pure_def, Option.bind_eq_bind, Option.bind_eq_some_iff,
      Option.some.injEq] at hp
    obtain ⟨ws₁, hp, ws₂, -, rfl⟩ := hp
    obtain ⟨w, hw, hrest⟩ := ih hp hr
    exact ⟨w, List.mem_append_left _ hw, hrest⟩
  | altSecond _ _ _ ih =>
    simp only [Pattern.words?, Option.pure_def, Option.bind_eq_bind, Option.bind_eq_some_iff,
      Option.some.injEq] at hp
    obtain ⟨ws₁, -, ws₂, hq, rfl⟩ := hp
    obtain ⟨w, hw, hrest⟩ := ih hq hr
    exact ⟨w, List.mem_append_right _ hw, hrest⟩
  | textFails _ | charFails _ | finishFails _ | catFails _ _ | catThenFails _ _ _ _ | notFails _ _
  | ruleFails _ _ => cases hr
  | _ => cases hp

/-- The words that are no identifiers. -/
def reserved : List (List Char) := ("var" :: Rule.keywords).map String.toList

theorem not_takes_reserved {w : List Char} (hw : w ∈ reserved) : ¬ script.Takes .identifier w := by
  rintro ⟨o, ns, h⟩
  have hfails : ∀ w ∈ reserved, w ≠ [] ∧
      (script.glance (fun _ => false) 4 .loose (.rule .identifier) (.token w)).isFailure = true := by
    decide +kernel
  obtain ⟨hne, hfailure⟩ := hfails w hw
  have hholds : (script.glance (fun _ => false) 4 .loose (.rule .identifier) (.token w)).Holds
      [] [] _ := glance_holds (fun _ _ h => by cases h) (fun _ h => by cases h) h 4 (.token w)
    ⟨hne, (List.append_nil w).symm⟩
  cases hg : script.glance (fun _ => false) 4 .loose (.rule .identifier) (.token w) with
  | fails =>
    rw [hg] at hholds
    cases hholds
  | onto | unknown =>
    rw [hg] at hfailure
    cases hfailure

/-- **No keyword stands where an identifier does.** -/
theorem keyword_fails {x tail : List Char} (hx : script.Takes .identifier x) (hedge : Edge tail)
    {p : Pattern Rule} {ws : List (List Char)} (hp : p.words? = some ws)
    (hws : ∀ w ∈ ws, w ∈ reserved) {at_ : Atomicity} (hat : at_ ≠ .loose) {o : Nat} {c : Cursor}
    {ns : List (Node Rule)} :
    ¬ script.Comes at_ (.next p (.not (.char .namePart))) ⟨o, x ++ tail⟩ (some (c, ns)) := by
  intro h
  obtain ⟨c₁, _, _, hword, hnot⟩ := h.next_parts hat
  obtain ⟨w, hw, hrest⟩ := hword.word_mem hp
  have hrest : x ++ tail = w ++ c₁.rest := hrest
  have hspace : w.any isSpace = false :=
    (by decide : ∀ w ∈ reserved, w.any isSpace = false) w (hws w hw)
  obtain ⟨rest, rfl⟩ := prefix_of_token hedge hspace ⟨c₁.rest, hrest.symm⟩
  cases rest with
  | nil =>
    rw [List.append_nil] at hx
    exact not_takes_reserved (hws w hw) hx
  | cons y rest =>
    -- the word would go on, with a character of the identifier
    obtain ⟨z, zs, hz, -, hzs⟩ := name_shape (identifier_isName hx)
    have hy : y ∈ zs := by
      cases w with
      | nil =>
        exact absurd (hws [] hw) (by decide)
      | cons a w =>
        rw [List.cons_append] at hz
        rw [← (List.cons.inj hz).2]
        exact List.mem_append_right _ (List.mem_cons_self ..)
    rw [List.append_assoc] at hrest
    cases hnot with
    | not hfails =>
      cases hfails with
      | charFails hfails =>
        have := hfails y (rest ++ tail) (List.append_cancel_left hrest).symm
        rw [hzs y hy] at this
        cases this

end ScriptModules.Grammar
