import ScriptModules.Proofs.MatchEnds

/-!
# Looking ahead

Often the next token of a text decides what a pattern comes to, whatever stands behind it. A `View`
is what is known of a text: that a token stands there which is followed by blank or by the end, or
only the class of its first character. `glance` runs a pattern on a view, and what it answers is
true of every text that is seen so (`glance_holds`). So it is enough to compute it to know that an
alternative of the grammar fails, or that it takes the token.
-/

namespace ScriptModules.Grammar

/-! ### Classes of characters -/

/-- The characters that separate tokens. -/
def spaces : List Char := [' ', '\t', '\r', '\n', Char.ofNat 0xFEFF]

theorem isSpace_iff {x : Char} : isSpace x = true ↔ x ∈ spaces := by
  simp [isSpace, spaces, or_assoc]

/-- No digit begins a name. -/
theorem nameStart_of_digit {x : Char} (h : isDigit x = true) :
    CharClass.nameStart.has x = false := by
  have hrange : 48 ≤ x.toNat ∧ x.toNat ≤ 57 := by
    simpa [isDigit, Char.le_def, UInt32.le_iff_toNat_le] using h
  have hunderscore : x ≠ '_' := by
    rintro rfl
    revert h
    decide
  have hdollar : x ≠ '$' := by
    rintro rfl
    revert h
    decide
  simp only [CharClass.has, isLetter, Char.le_def, UInt32.le_iff_toNat_le]
  simp [hunderscore, hdollar]
  omega

/-- Whether a character of the one class may be in the other. -/
def CharClass.meets : CharClass → CharClass → Bool
  | .oneOf cs, k => cs.any k.has
  | k, .oneOf cs => cs.any k.has
  | .digit, .nameStart => false
  | .nameStart, .digit => false
  | _, _ => true

theorem CharClass.not_has_of_mem {k : CharClass} {cs : List Char} (h : cs.any k.has = false) {x : Char}
    (hx : x ∈ cs) : k.has x = false := by
  simpa using List.any_eq_false.1 h x hx

/-- A class whose characters are not in the list. -/
theorem CharClass.oneOf_not_has {k : CharClass} {cs : List Char} (h : cs.any k.has = false) {x : Char}
    (hx : k.has x = true) : (CharClass.oneOf cs).has x = false := by
  refine Bool.eq_false_iff.2 fun hmem => ?_
  rw [not_has_of_mem h (List.contains_iff_mem.1 hmem)] at hx
  cases hx

/-- Classes that do not meet have no character in common. -/
theorem CharClass.not_has_of_meets {k k' : CharClass} (h : k.meets k' = false) {x : Char}
    (hx : k.has x = true) : k'.has x = false := by
  cases k with
  | oneOf cs => exact not_has_of_mem h (List.contains_iff_mem.1 hx)
  | digit =>
    cases k' with
    | nameStart => exact nameStart_of_digit hx
    | oneOf cs => exact oneOf_not_has h hx
    | digit | namePart | noneOf => cases h
  | nameStart =>
    cases k' with
    | digit =>
      refine Bool.eq_false_iff.2 fun hdigit => ?_
      rw [nameStart_of_digit hdigit] at hx
      cases hx
    | oneOf cs => exact oneOf_not_has h hx
    | nameStart | namePart | noneOf => cases h
  | namePart | noneOf =>
    cases k' with
    | oneOf cs => exact oneOf_not_has h hx
    | digit | nameStart | namePart | noneOf => cases h

/-! ### Views -/

/-- What is known of a text. -/
inductive View where
  /-- These characters, then blank or the end. -/
  | token (t : List Char)
  /-- Blank or the end, behind a token. -/
  | gap
  /-- A character of the class. -/
  | opens (k : CharClass)
  | finished
  | anywhere

/-- What is known behind the characters of a token that were taken. -/
def View.behind : List Char → View
  | [] => .gap
  | x :: t => .token (x :: t)

/-- Whether the first character of a text is all that is known. -/
def View.isOpen : View → Bool
  | .opens _ => true
  | _ => false

/-- A text that a token may stand before: it begins with blank or is empty. -/
def Edge (tail : List Char) : Prop := ∀ x rest, tail = x :: rest → isSpace x = true

/-- **A text is seen so:** it begins with the token before `tail`, or it is the text `here`, whose
first character is known. -/
def View.Sees (here tail : List Char) : View → List Char → Prop
  | .token t, s => t ≠ [] ∧ s = t ++ tail
  | .gap, s => s = tail
  | .opens k, s => s = here ∧ ∃ x rest, s = x :: rest ∧ k.has x = true
  | .finished, s => s = []
  | .anywhere, _ => True

/-- What a look ahead answers. -/
inductive Glance where
  | fails
  /-- A match, and what is then seen. -/
  | onto (v : View)
  | unknown

/-- The answer is true of the place that a pattern comes to. -/
def Glance.Holds (here tail : List Char) : Glance → Option Cursor → Prop
  | .fails, r => r = none
  | .onto v, r => ∃ c, r = some c ∧ v.Sees here tail c.rest
  | .unknown, _ => True

/-! ### Running patterns on views -/

namespace Glance

/-- Exactly these characters. -/
def text (cs : List Char) (v : View) : Glance :=
  if cs.any isSpace then .unknown
  else
    match v with
    | .token t => if cs.isPrefixOf t then .onto (.behind (t.drop cs.length)) else .fails
    | .gap => if cs.isEmpty then .onto .gap else .fails
    | .opens k =>
      match cs with
      | [] => .onto (.opens k)
      | x :: _ => if k.has x then .unknown else .fails
    | .finished => if cs.isEmpty then .onto .finished else .fails
    | .anywhere => .unknown

/-- One character of the class. -/
def char (k : CharClass) : View → Glance
  | .token [] => .unknown
  | .token (x :: t) => if k.has x then .onto (.behind t) else .fails
  | .gap => if spaces.any k.has then .unknown else .fails
  | .opens k' => if k'.meets k then .unknown else .fails
  | .finished => .fails
  | .anywhere => .unknown

/-- Whether a token is seen behind blank, and no comment begins there. -/
def isSolid : List Char → Bool
  | [] => false
  | x :: t => !isSpace x && (x != '/' || t.isEmpty)

/-- Blank between tokens. -/
def blank (at_ : Atomicity) (v : View) : Glance :=
  if at_ ≠ .loose then .onto v
  else
    match v with
    | .token t => if isSolid t then .onto (.token t) else .unknown
    | .gap => .onto .anywhere
    | .opens k => if k.meets (.oneOf ('/' :: spaces)) then .unknown else .onto (.opens k)
    | .finished => .onto .finished
    | .anywhere => .onto .anywhere

/-- The end of the text. -/
def finish : View → Glance
  | .token _ => .fails
  | .opens _ => .fails
  | .finished => .onto .finished
  | .gap => .unknown
  | .anywhere => .unknown

end Glance

variable {ρ : Type}

namespace Glance

/-- Go on behind a match. -/
def andThen : Glance → (View → Glance) → Glance
  | fails, _ => fails
  | onto v, next => next v
  | unknown, _ => unknown

/-- What is tried after a failure. -/
def orElse : Glance → Glance → Glance
  | fails, other => other
  | onto v, _ => onto v
  | unknown, _ => unknown

/-- A match or nothing, where `v` is seen. -/
def orNothing (v : View) : Glance → Glance
  | fails => onto v
  | onto v' => onto v'
  | unknown => onto .anywhere

/-- As often as it matches, where `v` is seen. -/
def repeated (v : View) : Glance → Glance
  | fails => onto v
  | onto _ => onto .anywhere
  | unknown => onto .anywhere

/-- Nothing where it fails, where `v` is seen. -/
def negated (v : View) : Glance → Glance
  | fails => onto v
  | onto _ => fails
  | unknown => unknown

/-- Whether a failure is answered. -/
def isFailure : Glance → Bool
  | fails => true
  | onto _ => false
  | unknown => false

/-- Whether a match up to the end of the token is answered. -/
def isWhole : Glance → Bool
  | onto .gap => true
  | _ => false

end Glance

/-- Run a pattern on a view, given the answers of rules. -/
def glanceWith (rule : ρ → Atomicity → View → Glance) (at_ : Atomicity) : Pattern ρ → View → Glance
  | .rule r, v => rule r at_ v
  | .text cs, v => Glance.text cs v
  | .char k, v => Glance.char k v
  | .blank, v => Glance.blank at_ v
  | .finish, v => Glance.finish v
  | .cat p q, v => (glanceWith rule at_ p v).andThen (glanceWith rule at_ q)
  | .alt p q, v => (glanceWith rule at_ p v).orElse (glanceWith rule at_ q v)
  | .optional p, v => (glanceWith rule at_ p v).orNothing v
  | .star p, v => (glanceWith rule at_ p v).repeated v
  | .not p, v => (glanceWith rule at_ p v).negated v

/-- **Run a pattern on a view.** The rules that `lacks` are known to fail where only the first
character is; the number bounds how deep rules are opened. -/
def RuleSet.glance (g : RuleSet ρ) (lacks : ρ → Bool) : Nat → Atomicity → Pattern ρ → View → Glance
  | 0, at_ => glanceWith (fun _ _ _ => .unknown) at_
  | n + 1, at_ => glanceWith (fun r at_ v =>
      if v.isOpen && lacks r then .fails else g.glance lacks n (g.atomicityIn r at_) (g.body r) v) at_

section

variable (g : RuleSet ρ) (lacks : ρ → Bool) (n : Nat) (at_ : Atomicity) (p q : Pattern ρ) (v : View)

theorem glance_cat : g.glance lacks n at_ (.cat p q) v =
    (g.glance lacks n at_ p v).andThen (g.glance lacks n at_ q) := by
  cases n <;> rfl

theorem glance_alt : g.glance lacks n at_ (.alt p q) v =
    (g.glance lacks n at_ p v).orElse (g.glance lacks n at_ q v) := by
  cases n <;> rfl

theorem glance_optional :
    g.glance lacks n at_ (.optional p) v = (g.glance lacks n at_ p v).orNothing v := by
  cases n <;> rfl

theorem glance_star : g.glance lacks n at_ (.star p) v = (g.glance lacks n at_ p v).repeated v := by
  cases n <;> rfl

theorem glance_not : g.glance lacks n at_ (.not p) v = (g.glance lacks n at_ p v).negated v := by
  cases n <;> rfl

theorem glance_rule (r : ρ) : g.glance lacks (n + 1) at_ (.rule r) v =
    if v.isOpen && lacks r then .fails else g.glance lacks n (g.atomicityIn r at_) (g.body r) v :=
  rfl

end

/-! ### What is answered is true -/

section

variable {here tail s : List Char} {v : View}

theorem View.sees_behind {t : List Char} (hs : s = t ++ tail) : (View.behind t).Sees here tail s := by
  cases t with
  | nil => exact hs
  | cons x t => exact ⟨List.cons_ne_nil x t, hs⟩

/-- A text without blank that begins at a token lies inside it. -/
theorem prefix_of_token {cs t : List Char} (hedge : Edge tail) (hcs : cs.any isSpace = false)
    (h : cs <+: t ++ tail) : cs <+: t := by
  induction t generalizing cs with
  | nil =>
    cases cs with
    | nil => exact List.nil_prefix
    | cons x cs =>
      obtain ⟨rest, hrest⟩ := h
      have hx := hedge x _ hrest.symm
      rw [List.any_cons, hx] at hcs
      cases hcs
  | cons y t ih =>
    cases cs with
    | nil => exact List.nil_prefix
    | cons x cs =>
      obtain ⟨rfl, hrest⟩ := List.cons_prefix_cons.1 h
      rw [List.any_cons, Bool.or_eq_false_iff] at hcs
      exact List.cons_prefix_cons.2 ⟨rfl, ih hcs.2 hrest⟩

/-- What a text comes to depends on whether what is left begins with it. -/
theorem RuleSet.Comes.text_cases {g : RuleSet ρ} {at_ : Atomicity} {cs : List Char} {c : Cursor}
    {r : Option (Cursor × List (Node ρ))} (h : g.Comes at_ (.text cs) c r) :
    (∃ rest o, c.rest = cs ++ rest ∧ r = some (⟨o, rest⟩, [])) ∨ (¬ cs <+: c.rest ∧ r = none) := by
  cases h with
  | text h => exact .inl ⟨_, _, (Cursor.strip?_reaches h).2, rfl⟩
  | textFails h =>
    refine .inr ⟨fun hcs => ?_, rfl⟩
    rw [Cursor.strip?, if_pos (List.isPrefixOf_iff_prefix.2 hcs)] at h
    cases h

/-- What a class of characters comes to depends on the next character. -/
theorem RuleSet.Comes.char_cases {g : RuleSet ρ} {at_ : Atomicity} {k : CharClass} {c : Cursor}
    {r : Option (Cursor × List (Node ρ))} (h : g.Comes at_ (.char k) c r) :
    (∃ x rest o, c.rest = x :: rest ∧ k.has x = true ∧ r = some (⟨o, rest⟩, [])) ∨
      ((∀ x rest, c.rest = x :: rest → k.has x = false) ∧ r = none) := by
  cases h with
  | char h => exact .inl ⟨_, _, _, rfl, h, rfl⟩
  | charFails h => exact .inr ⟨h, rfl⟩

theorem text_holds {g : RuleSet ρ} {at_ : Atomicity} {cs : List Char} {c : Cursor}
    {r : Option (Cursor × List (Node ρ))} (hedge : Edge tail) (h : g.Comes at_ (.text cs) c r)
    (hv : v.Sees here tail c.rest) : (Glance.text cs v).Holds here tail (r.map Prod.fst) := by
  have hr := h.text_cases
  unfold Glance.text
  -- a text with blank in it may go on behind the token, so nothing is said of it
  split
  · exact trivial
  next hspace =>
  have hcs : cs.any isSpace = false := Bool.eq_false_iff.2 hspace
  cases v with
  | token t =>
    obtain ⟨-, hs⟩ := hv
    simp only
    split
    · next ht =>
      obtain ⟨t', rfl⟩ := List.isPrefixOf_iff_prefix.1 ht
      rw [List.drop_left]
      rcases hr with ⟨rest, o, hrest, rfl⟩ | ⟨hno, -⟩
      · rw [hs, List.append_assoc] at hrest
        exact ⟨_, rfl, View.sees_behind (List.append_cancel_left hrest).symm⟩
      · exact absurd ⟨t' ++ tail, by rw [hs, List.append_assoc]⟩ hno
    · next ht =>
      rcases hr with ⟨rest, o, hrest, rfl⟩ | ⟨-, rfl⟩
      · have hpre : cs <+: t ++ tail := ⟨rest, by rw [← hs, hrest]⟩
        exact absurd (List.isPrefixOf_iff_prefix.2 (prefix_of_token hedge hcs hpre)) ht
      · rfl
  | gap =>
    have hs : c.rest = tail := hv
    cases cs with
    | nil =>
      rcases hr with ⟨rest, o, hrest, rfl⟩ | ⟨hno, -⟩
      · exact ⟨_, rfl, hrest.symm.trans hs⟩
      · exact absurd List.nil_prefix hno
    | cons x cs =>
      rcases hr with ⟨rest, o, hrest, rfl⟩ | ⟨-, rfl⟩
      · have hpre : x :: cs <+: [] ++ tail := ⟨rest, by rw [List.nil_append, ← hs, hrest]⟩
        exact absurd (prefix_of_token hedge hcs hpre) (by simp)
      · rfl
  | opens k =>
    obtain ⟨hs, x, rest', hx, hk⟩ := hv
    cases cs with
    | nil =>
      rcases hr with ⟨rest, o, hrest, rfl⟩ | ⟨hno, -⟩
      · exact ⟨_, rfl, hrest.symm.trans hs, x, rest', hrest.symm.trans hx, hk⟩
      · exact absurd List.nil_prefix hno
    | cons y cs =>
      simp only
      split
      · exact trivial
      · next hy =>
        rcases hr with ⟨rest, o, hrest, rfl⟩ | ⟨-, rfl⟩
        · rw [hx] at hrest
          rw [(List.cons.inj hrest).1] at hk
          exact absurd hk hy
        · rfl
  | finished =>
    have hs : c.rest = [] := hv
    cases cs with
    | nil =>
      rcases hr with ⟨rest, o, hrest, rfl⟩ | ⟨hno, -⟩
      · exact ⟨_, rfl, hrest.symm.trans hs⟩
      · exact absurd List.nil_prefix hno
    | cons x cs =>
      rcases hr with ⟨rest, o, hrest, rfl⟩ | ⟨-, rfl⟩
      · exact absurd (hs.symm.trans hrest) nofun
      · rfl
  | anywhere => exact trivial

theorem char_holds {g : RuleSet ρ} {at_ : Atomicity} {k : CharClass} {c : Cursor}
    {r : Option (Cursor × List (Node ρ))} (hedge : Edge tail) (h : g.Comes at_ (.char k) c r)
    (hv : v.Sees here tail c.rest) : (Glance.char k v).Holds here tail (r.map Prod.fst) := by
  have hr := h.char_cases
  cases v with
  | token t =>
    obtain ⟨hne, hs⟩ := hv
    cases t with
    | nil => exact absurd rfl hne
    | cons y t =>
      simp only [Glance.char]
      split
      · next hy =>
        rcases hr with ⟨x, rest, o, hrest, -, rfl⟩ | ⟨hno, -⟩
        · obtain ⟨-, hrest⟩ := List.cons.inj (hs.symm.trans hrest)
          exact ⟨_, rfl, View.sees_behind hrest.symm⟩
        · rw [hno y _ hs] at hy
          cases hy
      · next hy =>
        rcases hr with ⟨x, rest, o, hrest, hx, rfl⟩ | ⟨-, rfl⟩
        · rw [← (List.cons.inj (hs.symm.trans hrest)).1] at hx
          exact absurd hx hy
        · rfl
  | gap =>
    simp only [Glance.char]
    split
    · exact trivial
    · next hspaces =>
      rcases hr with ⟨x, rest, o, hrest, hx, rfl⟩ | ⟨-, rfl⟩
      · have hspace := hedge x rest (Eq.trans (Eq.symm hv) hrest)
        exact absurd (List.any_eq_true.2 ⟨x, isSpace_iff.1 hspace, hx⟩) hspaces
      · rfl
  | opens k' =>
    obtain ⟨-, y, rest', hy, hk'⟩ := hv
    simp only [Glance.char]
    split
    · exact trivial
    · next hmeets =>
      rcases hr with ⟨x, rest, o, hrest, hx, rfl⟩ | ⟨-, rfl⟩
      · have hno := CharClass.not_has_of_meets (Bool.eq_false_iff.2 hmeets) hk'
        rw [(List.cons.inj (hy.symm.trans hrest)).1, hx] at hno
        cases hno
      · rfl
  | finished =>
    rcases hr with ⟨x, rest, o, hrest, -, rfl⟩ | ⟨-, rfl⟩
    · exact absurd (Eq.trans (Eq.symm hv) hrest) nofun
    · rfl
  | anywhere => exact trivial

/-- No blank begins at a token, unless a comment may. -/
theorem skipBlank_token {t : List Char} (hedge : Edge tail) (ht : Glance.isSolid t = true) (n : Nat) :
    skipBlank n (t ++ tail) = ⟨n, t ++ tail⟩ := by
  cases t with
  | nil => cases ht
  | cons x t =>
    simp only [Glance.isSolid, Bool.and_eq_true, Bool.not_eq_true', Bool.or_eq_true, bne_iff_ne,
      List.isEmpty_iff] at ht
    obtain ⟨hx, hslash⟩ := ht
    -- behind a single slash there is blank or nothing, so it begins no comment
    have hnext : ∀ y rest, x = '/' → t ++ tail = y :: rest → isSpace y = true := by
      rintro y rest rfl he
      rcases hslash with h | rfl
      · exact absurd rfl h
      · exact hedge y rest he
    have hline : ∀ rest, x = '/' → t ++ tail = '/' :: rest → False :=
      fun rest hx he => absurd (hnext _ rest hx he) (by decide)
    have hblock : ∀ rest, x = '/' → t ++ tail = '*' :: rest → False :=
      fun rest hx he => absurd (hnext _ rest hx he) (by decide)
    rw [List.cons_append, skipBlank.eq_3 n x (t ++ tail) hline hblock, hx]
    rfl

/-- A character that no blank begins with. -/
theorem begins_no_blank {x : Char} (h : CharClass.has (.oneOf ('/' :: spaces)) x = false) :
    x ≠ '/' ∧ isSpace x = false := by
  have hmem : x ∉ '/' :: spaces := fun hmem => by
    rw [show CharClass.has (.oneOf ('/' :: spaces)) x = true from List.contains_iff_mem.2 hmem] at h
    cases h
  rw [List.mem_cons, not_or] at hmem
  exact ⟨hmem.1, Bool.eq_false_iff.2 fun h => hmem.2 (isSpace_iff.1 h)⟩

theorem skipBlank_of_head {x : Char} {rest : List Char}
    (h : CharClass.has (.oneOf ('/' :: spaces)) x = false) (n : Nat) :
    skipBlank n (x :: rest) = ⟨n, x :: rest⟩ := by
  obtain ⟨hslash, hspace⟩ := begins_no_blank h
  rw [skipBlank.eq_3 n x rest (fun _ hx _ => hslash hx) (fun _ hx _ => hslash hx), hspace]
  rfl

theorem blank_holds {at_ : Atomicity} {c : Cursor} (hedge : Edge tail)
    (hv : v.Sees here tail c.rest) :
    (Glance.blank at_ v).Holds here tail
      (some (if at_ = .loose then c.skipBlank else c)) := by
  unfold Glance.blank
  by_cases hat : at_ = .loose
  · rw [if_neg (not_not_intro hat), if_pos hat]
    cases v with
    | token t =>
      obtain ⟨hne, hs⟩ := hv
      simp only
      split
      · next ht =>
        refine ⟨_, rfl, hne, ?_⟩
        rw [Cursor.skipBlank, hs, skipBlank_token hedge ht]
      · exact trivial
    | gap => exact ⟨_, rfl, trivial⟩
    | opens k =>
      obtain ⟨hs, x, rest, hx, hk⟩ := hv
      simp only
      split
      · exact trivial
      · next hmeets =>
        have hno := CharClass.not_has_of_meets (Bool.eq_false_iff.2 hmeets) hk
        have hskip : c.skipBlank.rest = c.rest := by
          rw [Cursor.skipBlank, hx, skipBlank_of_head hno]
        exact ⟨_, rfl, hskip.trans hs, x, rest, hskip.trans hx, hk⟩
    | finished =>
      refine ⟨_, rfl, ?_⟩
      rw [Cursor.skipBlank, show c.rest = [] from hv]
      rfl
    | anywhere => exact ⟨_, rfl, trivial⟩
  · rw [if_pos hat, if_neg hat]
    exact ⟨_, rfl, hv⟩

theorem finish_holds {g : RuleSet ρ} {at_ : Atomicity} {c : Cursor}
    {r : Option (Cursor × List (Node ρ))} (h : g.Comes at_ .finish c r)
    (hv : v.Sees here tail c.rest) : (Glance.finish v).Holds here tail (r.map Prod.fst) := by
  cases v with
  | token t =>
    cases h with
    | finish h => exact absurd (List.append_eq_nil_iff.1 (hv.2.symm.trans h)).1 hv.1
    | finishFails _ => rfl
  | opens k =>
    obtain ⟨-, x, rest, hx, -⟩ := hv
    cases h with
    | finish h => exact absurd (hx.symm.trans h) (List.cons_ne_nil x rest)
    | finishFails _ => rfl
  | finished =>
    cases h with
    | finish h => exact ⟨_, rfl, h⟩
    | finishFails h => exact absurd hv h
  | gap | anywhere => exact trivial

section

variable {a b : Glance} {c : Cursor} {x y : Option Cursor} {f : View → Glance}

theorem Glance.Holds.andThen (h : a.Holds here tail x) (hfails : x = none → y = none)
    (hto : ∀ c, x = some c → ∀ v, v.Sees here tail c.rest → (f v).Holds here tail y) :
    (a.andThen f).Holds here tail y := by
  cases a with
  | fails => exact hfails h
  | onto v =>
    obtain ⟨c, hx, hv⟩ := h
    exact hto c hx v hv
  | unknown => exact trivial

theorem Glance.Holds.orElse (h : a.Holds here tail x) (hfails : x = none → b.Holds here tail y)
    (hto : ∀ c, x = some c → y = some c) : (a.orElse b).Holds here tail y := by
  cases a with
  | fails => exact hfails h
  | onto v =>
    obtain ⟨c, hx, hv⟩ := h
    exact ⟨c, hto c hx, hv⟩
  | unknown => exact trivial

theorem Glance.Holds.orNothing (h : a.Holds here tail x) (hv : v.Sees here tail c.rest)
    (hfails : x = none → y = some c) (hto : ∀ c, x = some c → y = some c) :
    (a.orNothing v).Holds here tail y := by
  cases a with
  | fails => exact ⟨c, hfails h, hv⟩
  | onto v =>
    obtain ⟨c, hx, hv⟩ := h
    exact ⟨c, hto c hx, hv⟩
  | unknown =>
    cases x with
    | none => exact ⟨c, hfails rfl, trivial⟩
    | some c => exact ⟨c, hto c rfl, trivial⟩

theorem Glance.Holds.repeated (h : a.Holds here tail x) (hv : v.Sees here tail c.rest)
    (hfails : x = none → y = some c) (hy : ∃ c, y = some c) :
    (a.repeated v).Holds here tail y := by
  obtain ⟨c', hy⟩ := hy
  cases a with
  | fails => exact ⟨c, hfails h, hv⟩
  | onto | unknown => exact ⟨c', hy, trivial⟩

theorem Glance.Holds.negated (h : a.Holds here tail x) (hv : v.Sees here tail c.rest)
    (hfails : x = none → y = some c) (hto : ∀ c, x = some c → y = none) :
    (a.negated v).Holds here tail y := by
  cases a with
  | fails => exact ⟨c, hfails h, hv⟩
  | onto v =>
    obtain ⟨c, hx, -⟩ := h
    exact hto c hx
  | unknown => exact trivial

end

/-- **What a look ahead answers is true.** -/
theorem glance_holds {g : RuleSet ρ} {lacks : ρ → Bool} (hedge : Edge tail)
    (hlacks : ∀ r, lacks r = true → ∀ at_ o, g.Comes at_ (.rule r) ⟨o, here⟩ none)
    {at_ : Atomicity} {p : Pattern ρ} {c : Cursor} {r : Option (Cursor × List (Node ρ))}
    (h : g.Comes at_ p c r) : ∀ n v, v.Sees here tail c.rest →
      (g.glance lacks n at_ p v).Holds here tail (r.map Prod.fst) := by
  -- a rule is opened with one less, unless it is known to fail here
  have hopened : ∀ {r : ρ} {at_ : Atomicity} {c : Cursor} {x : Option (Cursor × List (Node ρ))},
      g.Comes at_ (.rule r) c x →
      (∀ n v, v.Sees here tail c.rest →
        (g.glance lacks n (g.atomicityIn r at_) (g.body r) v).Holds here tail (x.map Prod.fst)) →
      ∀ n v, v.Sees here tail c.rest →
        (g.glance lacks n at_ (.rule r) v).Holds here tail (x.map Prod.fst) := by
    intro r at_ c x hx ih n v hv
    cases n with
    | zero => exact trivial
    | succ n =>
      rw [glance_rule]
      split
      · next hlack =>
        obtain ⟨hopen, hlack⟩ := Bool.and_eq_true_iff.1 hlack
        have hrest : c.rest = here := by
          cases v with
          | opens k => exact hv.1
          | token | gap | finished | anywhere => cases hopen
        obtain ⟨o, rest⟩ := c
        obtain rfl : rest = here := hrest
        rw [hx.unique (hlacks r hlack at_ o)]
        rfl
      · exact ih n v hv
  induction h with
  | @text at_ cs c _ h =>
    intro n v hv
    have hcomes : g.Comes at_ (.text cs) c _ := .text h
    cases n <;> exact text_holds hedge hcomes hv
  | @textFails at_ cs c h =>
    intro n v hv
    have hcomes : g.Comes at_ (.text cs) c _ := .textFails h
    cases n <;> exact text_holds hedge hcomes hv
  | @char at_ k o x rest h =>
    intro n v hv
    have hcomes : g.Comes at_ (.char k) ⟨o, x :: rest⟩ _ := .char h
    cases n <;> exact char_holds hedge hcomes hv
  | @charFails at_ k c h =>
    intro n v hv
    have hcomes : g.Comes at_ (.char k) c _ := .charFails h
    cases n <;> exact char_holds hedge hcomes hv
  | blank =>
    intro n v hv
    cases n <;> exact blank_holds hedge hv
  | @finish at_ c h =>
    intro n v hv
    have hcomes : g.Comes at_ .finish c _ := .finish h
    cases n <;> exact finish_holds hcomes hv
  | @finishFails at_ c h =>
    intro n v hv
    have hcomes : g.Comes at_ .finish c _ := .finishFails h
    cases n <;> exact finish_holds hcomes hv
  | cat _ _ ihp ihq =>
    intro n v hv
    rw [glance_cat]
    refine (ihp n v hv).andThen (fun h => by cases h) fun c hc v' hv' => ?_
    cases hc
    exact ihq n v' hv'
  | catFails _ ihp =>
    intro n v hv
    rw [glance_cat]
    exact (ihp n v hv).andThen (fun _ => rfl) fun _ h => by cases h
  | catThenFails _ _ ihp ihq =>
    intro n v hv
    rw [glance_cat]
    refine (ihp n v hv).andThen (fun _ => rfl) fun c hc v' hv' => ?_
    cases hc
    exact ihq n v' hv'
  | altFirst _ ih =>
    intro n v hv
    rw [glance_alt]
    exact (ih n v hv).orElse (fun h => by cases h) fun _ h => h
  | altSecond _ _ ihp ihq =>
    intro n v hv
    rw [glance_alt]
    exact (ihp n v hv).orElse (fun _ => ihq n v hv) fun _ h => by cases h
  | optional _ ih =>
    intro n v hv
    rw [glance_optional]
    exact (ih n v hv).orNothing hv (fun h => by cases h) fun _ h => h
  | optionalNot _ ih =>
    intro n v hv
    rw [glance_optional]
    exact (ih n v hv).orNothing hv (fun _ => rfl) fun _ h => by cases h
  | starEnd _ ih =>
    intro n v hv
    rw [glance_star]
    exact (ih n v hv).repeated hv (fun _ => rfl) ⟨_, rfl⟩
  | star _ _ ih _ =>
    intro n v hv
    rw [glance_star]
    exact (ih n v hv).repeated hv (fun h => by cases h) ⟨_, rfl⟩
  | not _ ih =>
    intro n v hv
    rw [glance_not]
    exact (ih n v hv).negated hv (fun _ => rfl) fun _ h => by cases h
  | notFails _ ih =>
    intro n v hv
    rw [glance_not]
    exact (ih n v hv).negated hv (fun h => by cases h) fun _ _ => rfl
  | rule h ih => exact hopened (.rule h) ih
  | ruleFails h ih => exact hopened (.ruleFails h) ih

end

end ScriptModules.Grammar
