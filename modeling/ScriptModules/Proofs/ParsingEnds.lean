import ScriptModules.Proofs.FaultPlaces

/-!
# The parse ends

Two things could keep a parser from ending: a rule that comes back to itself before it takes a character,
and a repetition that takes none. In a `Layered` grammar neither happens.

* One call of a rule `Leads` to those that are made while the rule is matched. They descend, first in what
  is left of the text and then in the rank of the rule (`RuleSet.Layered.leads_descend`); the crux is that
  the second of two parts may call any rule, but only behind a character that the first one took.
* What a pattern repeats takes a character each time (`RuleSet.Layered.offset_lt_of_repeats`).

The blank between tokens is skipped by a function of its own. It comes to the same as a pattern made of
white space and comments (`RuleSet.gap_skipBlank`), whose repetitions take characters, too. So the parse of
a text ends, whatever the text is (`Program.parsing_ends`).
-/

namespace ScriptModules.Grammar

variable {ρ : Type}

/-! ### Calls -/

namespace RuleSet

/-- **The call `y` leads to the call `x`,** directly or through others: while the rule of `y` is matched
at its place, the rule of `x` is called at its own. -/
def Leads (g : RuleSet ρ) (x y : ρ × Cursor) : Prop :=
  ∃ at_ at', g.Calls (g.atomicityIn y.1 at_) (g.body y.1) y.2 at' x.1 x.2

namespace Layered

variable {g : RuleSet ρ} {known : ρ → Bool} {rank : ρ → Nat} {limit : Nat}
  (L : g.Layered known rank limit)

include L

/-- What a pattern calls lies behind a character, or has a lower rank than the pattern needs. -/
theorem calls_descend {at_ at' : Atomicity} {p : Pattern ρ} {r : ρ} {c c' : Cursor}
    (h : g.Calls at_ p c at' r c') :
    c'.rest.length < c.rest.length ∨ rank r < p.need known rank := by
  -- needs count what is tried before a character is taken, so they go down along the way to the call
  induction h with
  | here => exact .inr (Nat.lt_succ_self _)
  | @inside at_ at' r r' c c' _ ih =>
    have hneed := L.need_le r
    refine ih.imp_right fun h => ?_
    rw [Pattern.need]
    omega
  | @catSecond at_ at' p q r c c₁ c' ns hp h ih =>
    by_cases hc : p.consumes known = true
    · -- behind a character the second part may call anything
      exact .inl (Nat.lt_of_le_of_lt h.reaches.length_le (L.shorter hp hc))
    · refine ih.imp (fun h => Nat.lt_of_lt_of_le h hp.reaches.length_le) fun h => ?_
      rw [Pattern.need, if_neg hc]
      omega
  | starNext hp _ ih => exact ih.imp_left fun h => Nat.lt_of_lt_of_le h hp.reaches.length_le
  | catFirst _ ih =>
    refine ih.imp_right fun h => ?_
    rw [Pattern.need]
    split <;> omega
  | altFirst _ ih | altSecond _ _ ih | optional _ ih | not _ ih | starFirst _ ih =>
    refine ih.imp_right fun h => ?_
    rw [Pattern.need]
    omega

/-- **Calls descend:** what is left of the text gets shorter, or it stays and the rank gets lower. -/
theorem leads_descend {x y : ρ × Cursor} (h : g.Leads x y) :
    Prod.Lex (· < ·) (· < ·) (x.2.rest.length, rank x.1) (y.2.rest.length, rank y.1) := by
  obtain ⟨at_, at', h⟩ := h
  have hle := h.reaches.length_le
  have hneed := L.need_le y.1
  rw [Prod.lex_def]
  rcases L.calls_descend h with hshorter | hrank
  · exact .inl hshorter
  · rcases Nat.lt_or_eq_of_le hle with hshorter | hsame
    · exact .inl hshorter
    · exact .inr ⟨hsame, Nat.lt_of_lt_of_le hrank hneed⟩

/-- So calls do not lead to one another without an end, -/
theorem leads_wellFounded : WellFounded g.Leads :=
  Subrelation.wf L.leads_descend
    (InvImage.wf (fun x : ρ × Cursor => (x.2.rest.length, rank x.1))
      (Prod.lex Nat.lt_wfRel Nat.lt_wfRel).wf)

/-- **and a rule that is called again** while it is matched is called behind a character. -/
theorem offset_lt_of_leads {r : ρ} {c c' : Cursor} (h : g.Leads (r, c') (r, c)) :
    c.offset < c'.offset := by
  have hdescends := Prod.lex_def.1 (L.leads_descend h)
  obtain ⟨at_, at', h⟩ := h
  obtain ⟨taken, hrest, hoffset⟩ := h.reaches
  have hlength := congrArg List.length hrest
  rw [List.length_append] at hlength
  simp only at hdescends hoffset hlength
  omega

end Layered
end RuleSet

/-! ### Repetitions -/

namespace Pattern

/-- The pattern without the blank before it. -/
def item : Pattern ρ → Pattern ρ
  | cat blank p => p
  | p => p

/-- **What is repeated in a pattern,** without the blank between the repetitions. -/
def repeats : Pattern ρ → List (Pattern ρ)
  | star p => p.item :: p.repeats
  | cat p q | alt p q => p.repeats ++ q.repeats
  | optional p | not p => p.repeats
  | rule _ | text _ | char _ | blank | finish => []

variable {known : ρ → Bool} {rank : ρ → Nat} {limit : Nat}

theorem consumes_item (p : Pattern ρ) : p.item.consumes known = p.consumes known := by
  unfold item
  split
  · rw [consumes, consumes, Bool.false_or]
  · rfl

/-- What is repeated takes a character. -/
theorem consumes_of_repeats {p q : Pattern ρ} (h : p.fits known rank limit = true) (hq : q ∈ p.repeats) :
    q.consumes known = true := by
  induction p with
  | rule | text | char | blank | finish => exact absurd hq List.not_mem_nil
  | cat p p' ihp ihp' | alt p p' ihp ihp' =>
    simp only [fits, Bool.and_eq_true] at h
    rcases List.mem_append.1 hq with hq | hq
    · exact ihp h.1.2 hq
    · exact ihp' h.2 hq
  | optional p ih | not p ih =>
    simp only [fits, Bool.and_eq_true] at h
    exact ih h.2 hq
  | star p ih =>
    simp only [fits, Bool.and_eq_true] at h
    rcases List.mem_cons.1 hq with rfl | hq
    · rw [consumes_item]
      exact h.1.2
    · exact ih h.2 hq

end Pattern

/-- **Each repetition takes a character.** -/
theorem RuleSet.Layered.offset_lt_of_repeats {g : RuleSet ρ} {known : ρ → Bool} {rank : ρ → Nat}
    {limit : Nat} (L : g.Layered known rank limit) {at_ : Atomicity} {p q : Pattern ρ} {c c' : Cursor}
    {ns : List (Node ρ)} (hp : p.fits known rank limit = true) (hq : q ∈ p.repeats)
    (h : g.Comes at_ q c (some (c', ns))) : c.offset < c'.offset := by
  have hshorter := L.shorter h (Pattern.consumes_of_repeats hp hq)
  obtain ⟨taken, hrest, hoffset⟩ := h.reaches
  rw [hrest, List.length_append] at hshorter
  omega

/-! ### White space and comments -/

namespace Pattern

/-- One character of white space. -/
def space : Pattern ρ := char (.oneOf spaces)

/-- Any character where the pattern does not match. -/
def besides (p : Pattern ρ) : Pattern ρ := cat (not p) (char (.noneOf []))

/-- A comment up to the end of its line. -/
def lineComment : Pattern ρ := cat (lit "//") (star (besides (lit "\n")))

/-- A comment up to the signs that close it. -/
def blockComment : Pattern ρ := cat (lit "/*") (cat (star (besides (lit "*/"))) (lit "*/"))

/-- A comment. -/
def comment : Pattern ρ := alt lineComment blockComment

/-- White space and comments in any number. -/
def gap : Pattern ρ := cat (star space) (star (cat comment (star space)))

end Pattern

namespace RuleSet

open Pattern

variable {g : RuleSet ρ} {at_ : Atomicity} {p q : Pattern ρ} {c c₁ c₂ c' : Cursor}

/-- A match without nodes has parts without nodes. -/
theorem Comes.exists_of_cat (h : g.Comes at_ (.cat p q) c (some (c', []))) :
    ∃ c₁, g.Comes at_ p c (some (c₁, [])) ∧ g.Comes at_ q c₁ (some (c', [])) := by
  generalize hr : some (c', ([] : List (Node ρ))) = r at h
  cases h with
  | @cat _ _ _ _ c₁ _ ns₁ ns₂ hp hq =>
    obtain ⟨rfl, hns⟩ := Prod.mk.inj (Option.some.inj hr)
    obtain ⟨rfl, rfl⟩ := List.append_eq_nil_iff.1 hns.symm
    exact ⟨c₁, hp, hq⟩
  | catFails _ | catThenFails _ _ => cases hr

theorem Comes.besides {o : Nat} {x : Char} {rest : List Char} (h : g.Comes at_ p ⟨o, x :: rest⟩ none) :
    g.Comes at_ p.besides ⟨o, x :: rest⟩ (some (⟨o + 1, rest⟩, [])) :=
  .cat (.not h) (.char rfl)

theorem Comes.besides_end {o : Nat} (h : g.Comes at_ p ⟨o, []⟩ none) :
    g.Comes at_ p.besides ⟨o, []⟩ none :=
  .catThenFails (.not h) (.charFails nofun)

theorem Comes.lit_none {s : String} (h : ¬ s.toList <+: c.rest) : g.Comes at_ (lit s) c none :=
  .textFails (if_neg fun hs => h (List.isPrefixOf_iff_prefix.1 hs))

theorem Comes.lit {s : String} {o : Nat} {t : List Char} :
    g.Comes at_ (Pattern.lit s) ⟨o, s.toList ++ t⟩ (some (⟨o + s.toList.length, t⟩, [])) := by
  refine .text ?_
  rw [Cursor.strip?, if_pos (List.isPrefixOf_iff_prefix.2 (List.prefix_append ..)), List.drop_left]

/-- Two signs do not stand where the second does not follow the first. -/
theorem not_signs {a b x : Char} {rest : List Char} (h : ∀ t, x = a → rest = b :: t → False) :
    ¬ [a, b] <+: x :: rest := by
  rintro ⟨t, ht⟩
  obtain ⟨hx, hrest⟩ := List.cons.inj ht
  exact h t hx.symm hrest.symm

/-- White space is skipped, -/
theorem Comes.gap_space {o : Nat} {x : Char} {rest : List Char} (hx : isSpace x = true)
    (h : g.Comes at_ gap ⟨o + 1, rest⟩ (some (c', []))) :
    g.Comes at_ gap ⟨o, x :: rest⟩ (some (c', [])) := by
  obtain ⟨c₁, hspaces, hcomments⟩ := h.exists_of_cat
  have hspace : (CharClass.oneOf spaces).has x = true := List.contains_iff_mem.2 (isSpace_iff.1 hx)
  exact .cat (.star (.char hspace) hspaces) hcomments

/-- and comments are, -/
theorem Comes.gap_comment (hspace : g.Comes at_ space c none)
    (hcomment : g.Comes at_ comment c (some (c₂, []))) (h : g.Comes at_ gap c₂ (some (c', []))) :
    g.Comes at_ gap c (some (c', [])) := by
  obtain ⟨c₁, hspaces, hcomments⟩ := h.exists_of_cat
  exact .cat (.starEnd hspace) (.star (.cat hcomment hspaces) hcomments)

/-- up to where there is neither. -/
theorem Comes.gap_end (hspace : g.Comes at_ space c none) (hcomment : g.Comes at_ comment c none) :
    g.Comes at_ gap c (some (c, [])) :=
  .cat (.starEnd hspace) (.starEnd (.catFails hcomment))

theorem Comes.space_none {o : Nat} {x : Char} {rest : List Char} (hx : isSpace x ≠ true) :
    g.Comes at_ space ⟨o, x :: rest⟩ none := by
  refine .charFails fun y rest' he => ?_
  obtain ⟨rfl, -⟩ := List.cons.inj he
  exact Bool.eq_false_iff.2 fun h => hx (isSpace_iff.2 (List.contains_iff_mem.1 h))

/-- **Blank between tokens is white space and comments in any number.** A comment between stars that has
no end is none. -/
theorem gap_skipBlank (n : Nat) (s : List Char) :
    g.Comes at_ gap ⟨n, s⟩ (some (skipBlank n s, [])) := by
  have hnothing : ∀ n, g.Comes at_ gap ⟨n, []⟩ (some (⟨n, []⟩, [])) := fun n =>
    .gap_end (.charFails nofun)
      (.altSecond (.catFails (.lit_none (by simp))) (.catFails (.lit_none (by simp))))
  -- from inside a comment, the rest of the comment is taken first
  refine skipBlank.induct
    (fun n s => g.Comes at_ gap ⟨n, s⟩ (some (skipBlank n s, [])))
    (fun start n s => ∃ c₁, g.Comes at_ (star (besides (lit "*/"))) ⟨n, s⟩ (some (c₁, [])) ∧
      ((∃ c₂, g.Comes at_ (lit "*/") c₁ (some (c₂, [])) ∧
          g.Comes at_ gap c₂ (some (skipBlock start n s, []))) ∨
        (g.Comes at_ (lit "*/") c₁ none ∧ skipBlock start n s = start)))
    (fun n s => ∃ c₁, g.Comes at_ (star (besides (lit "\n"))) ⟨n, s⟩ (some (c₁, [])) ∧
      g.Comes at_ gap c₁ (some (skipLine n s, []))) ?_ ?_ ?_ ?_ ?_ ?_ ?_ ?_ ?_ ?_ ?_ n s
  · -- a comment that ends with its line
    intro n rest ih
    obtain ⟨c₁, hbody, hgap⟩ := ih
    rw [skipBlank]
    exact .gap_comment (.space_none (by decide)) (.altFirst (.cat (.lit (s := "//")) hbody)) hgap
  · -- a comment between stars, which may have no end
    intro n rest ih
    have hspace : g.Comes at_ space ⟨n, '/' :: '*' :: rest⟩ none := .space_none (by decide)
    have hline : g.Comes at_ lineComment ⟨n, '/' :: '*' :: rest⟩ none :=
      .catFails (.lit_none (by simp))
    obtain ⟨c₁, hbody, ⟨c₂, hclose, hgap⟩ | ⟨hopen, hstart⟩⟩ := ih
    · rw [skipBlank]
      exact .gap_comment hspace (.altSecond hline (.cat (.lit (s := "/*")) (.cat hbody hclose))) hgap
    · rw [skipBlank, hstart]
      exact .gap_end hspace
        (.altSecond hline (.catThenFails (.lit (s := "/*")) (.catThenFails hbody hopen)))
  · -- white space
    intro n x rest hline hblock hx ih
    rw [skipBlank.eq_3 n x rest hline hblock, if_pos hx]
    exact .gap_space hx ih
  · -- something else
    intro n x rest hline hblock hx
    rw [skipBlank.eq_3 n x rest hline hblock, if_neg hx]
    refine .gap_end (.space_none hx) (.altSecond (.catFails (.lit_none ?_)) (.catFails (.lit_none ?_)))
    · exact not_signs hline
    · exact not_signs hblock
  · intro n
    rw [skipBlank]
    exact hnothing n
  · -- the signs that close a comment
    intro start n rest ih
    refine ⟨_, .starEnd (.catFails (.notFails (.lit (s := "*/") (t := rest)))), .inl ⟨_, .lit, ?_⟩⟩
    rw [skipBlock]
    exact ih
  · -- the comment goes on
    intro start n x rest hclose ih
    obtain ⟨c₁, hbody, hend⟩ := ih
    rw [skipBlock.eq_2 start n x rest hclose]
    have hopen : g.Comes at_ (lit "*/") ⟨n, x :: rest⟩ none := .lit_none (not_signs hclose)
    exact ⟨c₁, .star (.besides hopen) hbody, hend⟩
  · -- the text ends, and the comment does not
    intro start n
    have hopen : g.Comes at_ (lit "*/") ⟨n, []⟩ none := .lit_none (by simp)
    exact ⟨_, .starEnd (.besides_end hopen), .inr ⟨hopen, by rw [skipBlock]⟩⟩
  · -- the line ends, and its end is white space
    intro n rest ih
    refine ⟨_, .starEnd (.catFails (.notFails (.lit (s := "\n") (t := rest)))), ?_⟩
    rw [skipLine]
    exact .gap_space (by decide) ih
  · -- the line goes on
    intro n x rest hx ih
    obtain ⟨c₁, hbody, hgap⟩ := ih
    rw [skipLine.eq_2 n x rest hx]
    refine ⟨c₁, .star (.besides (.lit_none ?_)) hbody, hgap⟩
    rintro ⟨t, ht⟩
    obtain ⟨hx', -⟩ := List.cons.inj (show '\n' :: t = x :: rest from ht)
    exact hx hx'.symm
  · intro n
    refine ⟨_, .starEnd (.besides_end (.lit_none (by simp))), ?_⟩
    rw [skipLine]
    exact hnothing n

end RuleSet

/-! ### Fuel -/

namespace RuleSet

variable {g : RuleSet ρ} {at_ : Atomicity} {p : Pattern ρ} {c c' : Cursor}

/-- Two answers of which none ran out of fuel are the same. -/
theorem Agrees.unique {v v' : Verdict ρ} (h : g.Agrees at_ p c v) (h' : g.Agrees at_ p c v')
    (hv : v ≠ .exhausted) (hv' : v' ≠ .exhausted) : v = v' := by
  cases v with
  | matched c₁ ns₁ =>
    cases v' with
    | matched c₂ ns₂ =>
      cases Comes.unique h h'
      rfl
    | failed => cases Comes.unique h h'
    | exhausted => exact absurd rfl hv'
  | failed =>
    cases v' with
    | matched c₂ ns₂ => cases Comes.unique h h'
    | failed => rfl
    | exhausted => exact absurd rfl hv'
  | exhausted => exact absurd rfl hv

/-- What the matcher matches, the pattern comes to. -/
theorem comes_of_run {n : Nat} {a : Attempts ρ} {ns : List (Node ρ)}
    (h : (g.run n at_ p c a).1 = .matched c' ns) : g.Comes at_ p c (some (c', ns)) := by
  have hagrees := (g.run_agrees n).1 at_ p c a
  rwa [h] at hagrees

end RuleSet

end ScriptModules.Grammar

namespace ScriptModules

open Grammar

/-! ### Scripts -/

/-- More fuel than the parser has does not change what a rule comes to. -/
theorem run_eq_of_matchFuel_le {r : Rule} {s : List Char} {n : Nat} (hn : matchFuel s.length ≤ n) :
    (Grammar.script.run n .loose (.rule r) (Cursor.start s) {}).1 =
      (Grammar.script.run (matchFuel s.length) .loose (.rule r) (Cursor.start s) {}).1 :=
  RuleSet.Agrees.unique ((Grammar.script.run_agrees n).1 ..) ((Grammar.script.run_agrees _).1 ..)
    (matching_ends_of_le r hn) (matching_ends r s)

/-- A text is a program, or it has an error that a text can have. -/
theorem Program.parse_ends (s : String) : (∃ p, Program.parse s = .ok p) ∨
    ∃ f, Program.parse s = .error f ∧ f.cause ≠ .malformed := by
  cases hparse : Program.parse s with
  | ok p => exact .inl ⟨p, rfl⟩
  | error f =>
    refine .inr ⟨f, rfl, ?_⟩
    cases hs : isAccepted s with
    | true =>
      have hsound : f.cause ∈ SyntaxCause.ofTrees := sound_of_accepted hs hparse
      rintro hmalformed
      rw [hmalformed] at hsound
      exact absurd hsound (by decide)
    | false =>
      obtain ⟨rules, o, herror⟩ := unexpected_of_refused hs
      cases hparse.symm.trans herror
      nofun

/-- **The parse always ends.** No calls of rules lead to one another without an end, so a rule that is
called again while it is matched is called behind a character. What the rules repeat takes a character
each time, and so do the repetitions in blank between tokens, which is white space and comments in any
number.

For every text there is just one result to which the grammar comes. The parser finds it, and more fuel
would not change it. Every text is a program or has an error. -/
theorem Program.parsing_ends :
    (WellFounded Grammar.script.Leads ∧
      ∀ r c c', Grammar.script.Leads (r, c') (r, c) → c.offset < c'.offset) ∧
    (∀ r, ∀ p ∈ (Grammar.script.body r).repeats, ∀ at_ c c' ns,
      Grammar.script.Comes at_ p c (some (c', ns)) → c.offset < c'.offset) ∧
    ((∀ at_ c, Grammar.script.Comes at_ .gap c (some (c.skipBlank, []))) ∧
      ∀ p ∈ (Pattern.gap : Pattern Rule).repeats, ∀ at_ c c' ns,
        Grammar.script.Comes at_ p c (some (c', ns)) → c.offset < c'.offset) ∧
    ∀ s : String,
      (∃! r, Grammar.script.Comes .loose (.rule .script) (Cursor.start s.toList) r) ∧
      (matchScript s.toList).1 ≠ .exhausted ∧
      (∀ n, matchFuel s.toList.length ≤ n →
        (Grammar.script.run n .loose (.rule .script) (Cursor.start s.toList) {}).1 =
          (matchScript s.toList).1) ∧
      ((∃ p, Program.parse s = .ok p) ∨ ∃ f, Program.parse s = .error f ∧ f.cause ≠ .malformed) := by
  have hgap : (Pattern.gap : Pattern Rule).fits Rule.takesCharacter Rule.rank 70 = true := by decide
  refine ⟨⟨script_layered.leads_wellFounded, fun r c c' h => script_layered.offset_lt_of_leads h⟩,
    fun r p hp at_ c c' ns h => script_layered.offset_lt_of_repeats (script_layered.fits r) hp h,
    ⟨fun at_ c => RuleSet.gap_skipBlank c.offset c.rest,
      fun p hp at_ c c' ns h => script_layered.offset_lt_of_repeats hgap hp h⟩, fun s => ?_⟩
  obtain ⟨r, hr⟩ := script_layered.exists_comes (p := .rule .script) (by decide) .loose
    (Cursor.start s.toList)
  exact ⟨⟨r, hr, fun r' hr' => hr'.unique hr⟩, matching_ends .script s.toList,
    fun n hn => run_eq_of_matchFuel_le hn, Program.parse_ends s⟩

/-- Arguments behind the first are what a call repeats. -/
example : (Grammar.script.body .callArguments).repeats = [.next (.lit ",") (.rule .expression)] := rfl

/-- An arrow function in an arrow function, which is called behind three characters, a statement, and a
comment with a space behind it. -/
theorem Program.parsing_ends_for_arrows :
    (∃ c, Grammar.script.Leads (.arrowFunction, c) (.arrowFunction, Cursor.start "a=>b=>1".toList) ∧
      0 < c.offset) ∧
    (∃ c ns, Grammar.script.Comes .loose (.rule .statement) (Cursor.start "a=>b=>1".toList)
      (some (c, ns)) ∧ 0 < c.offset) ∧
    (∃ c ns, Grammar.script.Comes .loose (.cat .comment (.star .space)) (Cursor.start "/**/ a".toList)
      (some (c, ns)) ∧ 0 < c.offset) ∧
    (Grammar.script.run 20000 .loose (.rule .script) (Cursor.start "a=>b=>1".toList) {}).1 =
      (matchScript "a=>b=>1".toList).1 := by
  obtain ⟨⟨-, calls⟩, bodies, ⟨-, blanks⟩, texts⟩ := Program.parsing_ends
  refine ⟨?_, ?_, ?_, ?_⟩
  · have hparams : ∃ ns, (Grammar.script.run 60 .loose (.rule .arrowParams)
        (Cursor.start "a=>b=>1".toList) {}).1 = .matched ⟨1, "=>b=>1".toList⟩ ns := ⟨_, rfl⟩
    have hbody : Grammar.script.Comes .loose (.rule .functionBody) ⟨3, "b=>1".toList⟩ none :=
      .ruleFails (.catFails (.lit_none (by decide)))
    obtain ⟨ns, hparams⟩ := hparams
    have hleads : Grammar.script.Leads (.arrowFunction, ⟨3, "b=>1".toList⟩)
        (.arrowFunction, Cursor.start "a=>b=>1".toList) :=
      ⟨.loose, .loose, .catSecond (RuleSet.comes_of_run hparams) (.catSecond .blank
        (.catSecond (.lit (s := "=>")) (.catSecond .blank
          (.altSecond hbody (.inside (.altFirst .here))))))⟩
    exact ⟨_, hleads, calls _ _ _ hleads⟩
  · have hrun : ∃ c ns, (Grammar.script.run 200 .loose (.rule .statement)
        (Cursor.start "a=>b=>1".toList) {}).1 = .matched c ns := ⟨_, _, rfl⟩
    obtain ⟨c, ns, hrun⟩ := hrun
    have hcomes := RuleSet.comes_of_run hrun
    exact ⟨c, ns, hcomes, bodies .script (.rule .statement) (List.mem_cons_self ..) _ _ _ _ hcomes⟩
  · have hrun : ∃ c ns, (Grammar.script.run 60 .loose (.cat .comment (.star .space))
        (Cursor.start "/**/ a".toList) {}).1 = .matched c ns := ⟨_, _, rfl⟩
    obtain ⟨c, ns, hrun⟩ := hrun
    have hcomes := RuleSet.comes_of_run hrun
    refine ⟨c, ns, hcomes, blanks _ ?_ _ _ _ _ hcomes⟩
    exact List.mem_cons_of_mem _ (List.mem_cons_self ..)
  · obtain ⟨-, -, hfuel, -⟩ := texts "a=>b=>1"
    exact hfuel 20000 (by decide)

end ScriptModules
