import ScriptModules.Proofs.Words
import ScriptModules.Proofs.Tidy

/-!
# What tokens stand for

The grammar and the functions that read its tokens were written apart. Every text that the grammar
takes for a number is one that can be read (`number_readable`), and every text that it takes for an
identifier is a name and no keyword (`identifier_isIdentifier`), wherever in a script the token
stands and whatever follows it. A name that is no keyword is an identifier (`takes_identifier`).
-/

namespace ScriptModules

open Grammar

/-! ### Numbers -/

namespace Number

/-- Digits, one or more. -/
def Digits (ds : List Char) : Prop := ds ≠ [] ∧ ∀ x ∈ ds, isDigit x = true

/-- An exponent, or nothing. -/
inductive Exponent : List Char → Prop where
  | none : Exponent []
  | some {c : Char} {sign ds : List Char} : c = 'e' ∨ c = 'E' → sign ∈ [[], ['+'], ['-']] →
    Digits ds → Exponent (c :: (sign ++ ds))

/-- A point and digits, or nothing. -/
inductive Fraction : List Char → Prop where
  | none : Fraction []
  | some {ds : List Char} : Digits ds → Fraction ('.' :: ds)

theorem takeDigits_append {ds rest : List Char} (hds : Digits ds)
    (hrest : ∀ x xs, rest = x :: xs → isDigit x = false) : takeDigits (ds ++ rest) = (ds, rest) := by
  unfold takeDigits
  rw [List.takeWhile_append_of_pos hds.2, List.dropWhile_append_of_pos hds.2]
  cases rest with
  | nil => simp
  | cons x xs => simp [hrest x xs rfl]

theorem takeDigits_all {ds : List Char} (hds : Digits ds) : takeDigits ds = (ds, []) := by
  have hend : takeDigits (ds ++ []) = (ds, []) := takeDigits_append hds nofun
  rwa [List.append_nil] at hend

/-- What begins with a digit begins with no sign. -/
theorem takeSign_digits {ds : List Char} (hds : Digits ds) (rest : List Char) :
    takeSign (ds ++ rest) = (false, ds ++ rest) := by
  obtain ⟨hne, hdigits⟩ := hds
  cases ds with
  | nil => exact absurd rfl hne
  | cons x xs =>
    have hx := hdigits x (List.mem_cons_self ..)
    rw [List.cons_append]
    unfold takeSign
    split
    · next h =>
      obtain ⟨rfl, -⟩ := List.cons.inj h
      exact absurd hx (by decide)
    · next h =>
      obtain ⟨rfl, -⟩ := List.cons.inj h
      exact absurd hx (by decide)
    · rfl

theorem Exponent.isSome {e : List Char} (h : Exponent e) : (exponent? e).isSome = true := by
  cases h with
  | none => rfl
  | @some c sign ds hc hsign hds =>
    have htake : ∃ negative, takeSign (sign ++ ds) = (negative, ds) := by
      have hplain := takeSign_digits hds []
      rw [List.append_nil] at hplain
      simp only [List.mem_cons, List.not_mem_nil, or_false] at hsign
      rcases hsign with rfl | rfl | rfl
      · exact ⟨false, hplain⟩
      · exact ⟨false, rfl⟩
      · exact ⟨true, rfl⟩
    obtain ⟨negative, htake⟩ := htake
    have hne : ds.isEmpty = false := List.isEmpty_eq_false_iff.mpr hds.1
    unfold exponent?
    simp [hc, htake, takeDigits_all hds, hne]

/-- An exponent does not begin with a digit. -/
theorem Exponent.head {e : List Char} (h : Exponent e) : ∀ x xs, e = x :: xs → isDigit x = false := by
  intro x xs he
  cases h with
  | none => cases he
  | some hc _ _ =>
    obtain ⟨rfl, -⟩ := List.cons.inj he
    rcases hc with rfl | rfl <;> decide

/-- **Digits with a fraction and an exponent are a number.** -/
theorem exists_read {ds f e : List Char} (hds : Digits ds) (hf : Fraction f) (he : Exponent e) :
    ∃ x, read? (ds ++ (f ++ e)) = some x := by
  have hunsigned : (unsigned? (ds ++ (f ++ e))).isSome = true := by
    have hne : ds.isEmpty = false := List.isEmpty_eq_false_iff.mpr hds.1
    unfold unsigned?
    -- the digits end where the point is, or the exponent, or the text
    cases hf with
    | none =>
      rw [List.nil_append, takeDigits_append hds he.head]
      cases he with
      | none => simp [hne, exponent?]
      | some hc hsign hds' =>
        have he := (Exponent.some hc hsign hds').isSome
        rcases hc with rfl | rfl <;> simpa [hne] using he
    | @some ds' hds' =>
      rw [List.cons_append, takeDigits_append hds (by
        intro x xs h
        obtain ⟨rfl, -⟩ := List.cons.inj h
        decide)]
      simp only [takeDigits_append hds' he.head]
      simpa [hne] using he.isSome
  obtain ⟨d, hd⟩ := Option.isSome_iff_exists.mp hunsigned
  -- without a sign, what is read is a word or these digits
  unfold read?
  rw [takeSign_digits hds]
  simp only [Bool.false_eq_true, if_false]
  split_ifs
  · exact ⟨_, rfl⟩
  · exact ⟨_, rfl⟩
  · exact ⟨_, by rw [hd]; rfl⟩

end Number

namespace Grammar

open RuleSet

variable {g : RuleSet Rule} {at_ : Atomicity} {c c' : Cursor} {ns : List (Node Rule)}

/-- The characters of a node are those that its rule took. -/
theorem RuleSet.Comes.chars_node {p : Pattern Rule} (h : g.Comes at_ p c (some (c', ns)))
    {taken : List Char} (ht : c.rest = taken ++ c'.rest) (r : Rule) (children : List (Node Rule)) :
    (Node.mk r c c'.offset children).chars = taken := h.reaches.take_eq ht

theorem digits_taken (hat : at_ ≠ .loose) (h : g.Comes at_ Rule.digits c (some (c', ns))) :
    ∃ ds, c.rest = ds ++ c'.rest ∧ Number.Digits ds := by
  obtain ⟨x, xs, hrest, hx, hxs⟩ := h.headed hat
  exact ⟨x :: xs, hrest, List.cons_ne_nil x xs, List.forall_mem_cons.mpr ⟨hx, hxs⟩⟩

theorem fraction_taken (hat : at_ ≠ .loose)
    (h : g.Comes at_ (.optional (.next (.lit ".") Rule.digits)) c (some (c', ns))) :
    ∃ f, c.rest = f ++ c'.rest ∧ Number.Fraction f := by
  cases h with
  | optionalNot _ => exact ⟨[], rfl, .none⟩
  | optional h =>
    obtain ⟨c₁, _, _, hpoint, hdigits⟩ := h.next_parts hat
    obtain ⟨ds, hds, hall⟩ := digits_taken hat hdigits
    cases hpoint with
    | text hpoint =>
      refine ⟨'.' :: ds, ?_, .some hall⟩
      rw [(Cursor.strip?_reaches hpoint).2, hds]
      rfl

theorem sign_taken (h : g.Comes at_ (.optional (.char (.oneOf ['+', '-']))) c (some (c', ns))) :
    ∃ sign ∈ [[], ['+'], ['-']], c.rest = sign ++ c'.rest := by
  cases h with
  | optionalNot _ => exact ⟨[], by simp, rfl⟩
  | optional h =>
    cases h with
    | @char _ _ _ x rest hx =>
      refine ⟨[x], ?_, rfl⟩
      have hx : x = '+' ∨ x = '-' := by simpa [CharClass.has] using hx
      rcases hx with rfl | rfl <;> simp

theorem exponent_taken (hat : at_ ≠ .loose)
    (h : g.Comes at_ (.optional (.seq (.char (.oneOf ['e', 'E']))
      [.optional (.char (.oneOf ['+', '-'])), Rule.digits])) c (some (c', ns))) :
    ∃ e, c.rest = e ++ c'.rest ∧ Number.Exponent e := by
  cases h with
  | optionalNot _ => exact ⟨[], rfl, .none⟩
  | optional h =>
    obtain ⟨c₁, _, _, hletter, h⟩ := h.next_parts hat
    obtain ⟨c₂, _, _, hsign, hdigits⟩ := h.next_parts hat
    obtain ⟨ds, hds, hall⟩ := digits_taken hat hdigits
    obtain ⟨sign, hmem, hsign⟩ := sign_taken hsign
    cases hletter with
    | @char _ _ _ x rest hx =>
      have hx : x = 'e' ∨ x = 'E' := by simpa [CharClass.has] using hx
      refine ⟨x :: (sign ++ ds), ?_, .some hx hmem hall⟩
      rw [List.cons_append, List.append_assoc, ← hds, ← hsign]

/-- **What the grammar takes for a number can be read as one.** -/
theorem number_readable (h : script.Comes .atomic (script.body .numberLiteral) c (some (c', ns))) :
    ∃ x, Number.read? (Node.mk .numberLiteral c c'.offset ns).chars = some x := by
  have hat : Atomicity.atomic ≠ .loose := by decide
  obtain ⟨c₁, _, _, hdigits, hrest⟩ := Comes.next_parts hat h
  obtain ⟨c₂, _, _, hfraction, hexponent⟩ := hrest.next_parts hat
  obtain ⟨ds, hds, hdigits⟩ := digits_taken hat hdigits
  obtain ⟨f, hf, hfraction⟩ := fraction_taken hat hfraction
  obtain ⟨e, he, hexponent⟩ := exponent_taken hat hexponent
  have htaken : c.rest = (ds ++ (f ++ e)) ++ c'.rest := by
    rw [hds, hf, he]
    simp only [List.append_assoc]
  rw [h.chars_node htaken]
  exact Number.exists_read hdigits hfraction hexponent

/-! ### Identifiers -/

/-- Where characters of a class end, none of them follows. -/
theorem RuleSet.Comes.chars_end {k : CharClass} (hat : at_ ≠ .loose)
    (h : g.Comes at_ (.star (.cat .blank (.char k))) c (some (c', ns))) :
    ∀ x rest, c'.rest = x :: rest → k.has x = false := by
  generalize hp : Pattern.star (.cat .blank (.char k)) = p at h
  generalize hr : some (c', ns) = r at h
  -- by induction on the repetition: it ended where the class failed
  induction h generalizing c' ns with
  | starEnd hnone _ =>
    cases hp
    cases hr
    cases hnone with
    | catFails hblank => cases hblank
    | catThenFails hblank hchar =>
      cases hblank
      rw [if_neg hat] at hchar
      cases hchar with
      | charFails hchar => exact hchar
  | star _ _ _ ih =>
    cases hr
    exact ih hat hp rfl
  | _ => cases hp

theorem RuleSet.Comes.many_chars_end {k : CharClass} (hat : at_ ≠ .loose)
    (h : g.Comes at_ (.many (.char k)) c (some (c', ns))) :
    ∀ x rest, c'.rest = x :: rest → k.has x = false := by
  cases h with
  | optionalNot hnone =>
    cases hnone with
    | catFails hchar =>
      cases hchar with
      | charFails hchar => exact hchar
    | catThenFails _ hstar => cases hstar
  | optional h =>
    cases h with
    | cat _ hstar => exact hstar.chars_end hat

/-- Where a choice between words fails, the text goes on with none of them. -/
theorem RuleSet.Comes.word_fails {p : Pattern Rule} (h : g.Comes at_ p c none)
    {ws : List (List Char)} (hp : p.words? = some ws) : ∀ w ∈ ws, ¬ w <+: c.rest := by
  -- a choice of words is made of texts and alternatives, of which all have failed
  generalize hr : none = r at h
  induction h generalizing ws with
  | @textFails at_ cs c h =>
    cases hp
    intro w hw hprefix
    obtain rfl := List.mem_singleton.mp hw
    rw [Cursor.strip?, if_pos (List.isPrefixOf_iff_prefix.2 hprefix)] at h
    cases h
  | altSecond _ _ ihp ihq =>
    simp only [Pattern.words?, Option.pure_def, Option.bind_eq_bind, Option.bind_eq_some_iff,
      Option.some.injEq] at hp
    obtain ⟨ws₁, hws₁, ws₂, hws₂, rfl⟩ := hp
    intro w hw
    rcases List.mem_append.mp hw with hw | hw
    · exact ihp hws₁ rfl w hw
    · exact ihq hws₂ hr w hw
  | charFails _ | finishFails _ | catFails _ _ | catThenFails _ _ _ _ | notFails _ _ | ruleFails _ _ =>
    cases hp
  | _ => cases hr

/-- **A keyword that does not go on is one for the grammar.** -/
theorem keyword_recognized {w tail : List Char} (hw : w ∈ reserved)
    (htail : ∀ x rest, tail = x :: rest → CharClass.namePart.has x = false)
    (hc : c.rest = w ++ tail) : ¬ script.Comes .atomic (.rule .keyword) c none := by
  intro h
  have hat : Atomicity.atomic ≠ .loose := by decide
  have hwords : (Pattern.first (.lit "var") (Rule.keywords.map .lit) : Pattern Rule).words? =
      some reserved := rfl
  cases h with
  | ruleFails h =>
    cases h with
    | catFails h => exact h.word_fails hwords w hw ⟨tail, hc.symm⟩
    | @catThenFails _ _ _ _ c₁ _ hword h =>
      obtain ⟨w', hw', hc'⟩ := hword.word_mem hwords
      -- no keyword begins with another
      have hsame : w = w' := by
        have hapart : ∀ v ∈ reserved, ∀ v' ∈ reserved, v <+: v' → v = v' := by decide
        rcases List.prefix_or_prefix_of_prefix ⟨tail, hc.symm⟩ ⟨c₁.rest, hc'.symm⟩ with hle | hle
        · exact hapart w hw w' hw' hle
        · exact (hapart w' hw' w hw hle).symm
      have hrest : tail = c₁.rest := by
        rw [hc, hsame] at hc'
        exact List.append_cancel_left hc'
      -- so it was stopped by a character of names behind the word, and there is none
      cases h with
      | catFails hblank => cases hblank
      | catThenFails hblank hnot =>
        cases hblank
        cases hnot with
        | notFails hchar =>
          cases hchar with
          | @char _ _ _ x rest hx =>
            rw [htail x rest hrest] at hx
            cases hx

/-- **What the grammar takes for an identifier is a name and no keyword.** -/
theorem identifier_isIdentifier
    (h : script.Comes .atomic (script.body .identifier) c (some (c', ns))) :
    IsIdentifier (Node.mk .identifier c c'.offset ns).text := by
  have hat : Atomicity.atomic ≠ .loose := by decide
  obtain ⟨c₁, _, _, hnot, hname⟩ := Comes.next_parts hat h
  obtain ⟨c₂, _, _, -, hmany⟩ := hname.next_parts hat
  obtain ⟨y, ys, hrest, hy, hys⟩ := hname.headed hat
  cases hnot with
  | not hkeyword =>
    have hchars : (Node.mk Rule.identifier c c'.offset ns).text.toList = y :: ys := by
      rw [Node.text, String.toList_ofList, h.chars_node (show c.rest = (y :: ys) ++ c'.rest from hrest)]
    refine ⟨⟨y, ys, hchars, hy, hys⟩, fun hmem => ?_⟩
    -- were it a keyword, the look ahead would have seen it, for the rule took all of the name
    have hword : y :: ys ∈ reserved := hchars ▸ List.mem_map_of_mem hmem
    exact keyword_recognized hword (hmany.many_chars_end hat) hrest hkeyword

/-! ### Names that are no keywords -/

/-- The words that the rule of keywords chooses from. -/
theorem words?_keyword :
    (Pattern.first (.lit "var") (Rule.keywords.map .lit) : Pattern Rule).words? = some reserved :=
  rfl

theorem comes_blank (c : Cursor) : script.Comes .atomic .blank c (some (c, [])) := .blank

/-- Characters of a class, up to the end of a text. -/
theorem comes_many_char {k : CharClass} {xs : List Char} (hxs : ∀ x ∈ xs, k.has x = true)
    (o : Nat) : ∃ o' ns, script.Comes .atomic (.many (.char k)) ⟨o, xs⟩ (some (⟨o', []⟩, ns)) := by
  have hend : ∀ o, script.Comes .atomic (.char k) ⟨o, []⟩ none := fun o =>
    .charFails fun x rest h => by cases h
  have hstar : ∀ xs : List Char, (∀ x ∈ xs, k.has x = true) → ∀ o, ∃ o' ns,
      script.Comes .atomic (.star (.cat .blank (.char k))) ⟨o, xs⟩ (some (⟨o', []⟩, ns)) := by
    intro xs hxs
    induction xs with
    | nil => exact fun o => ⟨_, _, .starEnd (.catThenFails (comes_blank _) (hend o))⟩
    | cons x xs ih =>
      obtain ⟨hx, hxs⟩ := List.forall_mem_cons.mp hxs
      intro o
      obtain ⟨o', ns, htail⟩ := ih hxs (o + 1)
      exact ⟨_, _, .star (.cat (comes_blank _) (.char hx)) htail⟩
  cases xs with
  | nil => exact ⟨_, _, .optionalNot (.catFails (hend o))⟩
  | cons x xs =>
    obtain ⟨hx, hxs⟩ := List.forall_mem_cons.mp hxs
    obtain ⟨o', ns, htail⟩ := hstar xs hxs (o + 1)
    exact ⟨_, _, .optional (.cat (.char hx) htail)⟩

/-- **The rule of keywords takes no part of a name that is none.** -/
theorem keyword_takes_no_part {y : Char} {ys : List Char}
    (hys : ∀ z ∈ ys, CharClass.namePart.has z = true) (hword : y :: ys ∉ reserved) :
    ¬ script.Comes .atomic (script.body .keyword) (.start (y :: ys)) (some (c, ns)) := by
  intro h
  obtain ⟨c₁, _, _, htaken, hnot⟩ := h.next_parts (by decide)
  obtain ⟨w, hw, hrest⟩ := htaken.word_mem words?_keyword
  have hrest : y :: ys = w ++ c₁.rest := hrest
  cases w with
  | nil => exact absurd hw (by decide)
  | cons a w =>
    cases htail : c₁.rest with
    | nil =>
      rw [htail, List.append_nil] at hrest
      exact hword (hrest ▸ hw)
    | cons z zs =>
      -- the name goes on behind the word, and there a keyword may not end
      have hz : z ∈ ys := by
        rw [htail, List.cons_append] at hrest
        rw [(List.cons.inj hrest).2]
        exact List.mem_append_right _ List.mem_cons_self
      cases hnot with
      | not hfails =>
        cases hfails with
        | charFails hfails =>
          have hno := hfails z zs htail
          rw [hys z hz] at hno
          cases hno

theorem keyword_fails_at_name {y : Char} {ys : List Char}
    (hys : ∀ z ∈ ys, CharClass.namePart.has z = true) (hword : y :: ys ∉ reserved) :
    script.Comes .atomic (.rule .keyword) (.start (y :: ys)) none := by
  have hagrees := (script.run_agrees (matchFuel (y :: ys).length)).1 .loose (.rule .keyword)
    (Cursor.start (y :: ys)) {}
  cases hv : (script.run (matchFuel (y :: ys).length) .loose (.rule .keyword)
      (Cursor.start (y :: ys)) {}).1 with
  | exhausted => exact absurd hv (matching_ends .keyword (y :: ys))
  | failed =>
    rw [hv] at hagrees
    have hfails : script.Comes .loose (.rule .keyword) (.start (y :: ys)) none := hagrees
    cases hfails with
    | ruleFails hfails => exact .ruleFails hfails
  | matched c ns =>
    rw [hv] at hagrees
    have hcomes : script.Comes .loose (.rule .keyword) (.start (y :: ys)) (some (c, ns)) := hagrees
    cases hcomes with
    | rule hcomes => exact absurd hcomes (keyword_takes_no_part hys hword)

/-- **A name that is no keyword is an identifier of the grammar.** -/
theorem takes_identifier {x : String} (h : IsIdentifier x) :
    script.Takes .identifier x.toList := by
  obtain ⟨⟨y, ys, hx, hy, hys⟩, hword⟩ := h
  have hword : y :: ys ∉ reserved := by
    intro hmem
    obtain ⟨v, hv, hvx⟩ := List.mem_map.mp hmem
    exact hword (String.toList_injective (hvx.trans hx.symm) ▸ hv)
  obtain ⟨o, ns, hmany⟩ := comes_many_char hys 1
  have hname : script.Comes .atomic (script.body .identifier) (.start (y :: ys))
      (some (⟨o, []⟩, ns)) :=
    .cat (.not (keyword_fails_at_name hys hword))
      (.cat (comes_blank _) (.cat (.char hy) (.cat (comes_blank _) hmany)))
  rw [hx]
  exact ⟨_, _, .rule hname⟩

end Grammar

end ScriptModules
