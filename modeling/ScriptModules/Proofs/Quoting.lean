import ScriptModules.Proofs.Reading
import ScriptModules.Syntax.Build

/-!
# String literals

Between quotes of either kind stands what `Quoted` describes, where a backslash takes the character
behind it. The grammar reads such a literal as one node, and the text of the node is what the
escapes stand for (`IsLiteral.reads`). Every text has a literal: `Escape.encode` writes one, and
decoding it gives the text back (`Escape.decode_encode`).
-/

namespace ScriptModules

/-- **What may stand between quotes `q`:** no quote and no line end, but behind a backslash any
character. -/
inductive Quoted (q : Char) : List Char → Prop where
  | nil : Quoted q []
  | plain {x raw} : x ≠ q → x ≠ '\\' → x ≠ '\n' → Quoted q raw → Quoted q (x :: raw)
  | escaped {x raw} : Quoted q raw → Quoted q ('\\' :: x :: raw)

namespace Escape

/-- The characters that stand for `x` between double quotes. -/
def encodeChar (x : Char) : List Char :=
  if x = '\n' then ['\\', 'n'] else if x = '"' ∨ x = '\\' then ['\\', x] else [x]

/-- The characters that stand for a text between double quotes. -/
def encode (s : List Char) : List Char := s.flatMap encodeChar

theorem encode_cons (x : Char) (s : List Char) : encode (x :: s) = encodeChar x ++ encode s := rfl

/-- **Escapes give the text back.** -/
theorem decode_encode (s : List Char) : decode (encode s) = some s := by
  induction s with
  | nil => rfl
  | cons x s ih =>
    rw [encode_cons]
    unfold encodeChar
    split
    · next hx =>
      subst hx
      simp [decode, ih, simple]
    · split
      · next hx =>
        rcases hx with rfl | rfl <;> simp [decode, ih, simple]
      · next hx =>
        rw [not_or] at hx
        have hslash : x = '\\' → False := hx.2
        rw [List.singleton_append, decode.eq_6 x _ (fun _ _ _ _ _ h _ => hslash h)
          (fun _ h _ => hslash h) (fun _ _ h _ => hslash h) (fun h _ => hslash h), ih]
        rfl

/-- What is encoded may stand between double quotes. -/
theorem encode_quoted (s : List Char) : Quoted '"' (encode s) := by
  induction s with
  | nil => exact .nil
  | cons x s ih =>
    rw [encode_cons]
    unfold encodeChar
    split
    · exact .escaped ih
    · split
      · exact .escaped ih
      · next hline hx =>
        rw [not_or] at hx
        exact .plain hx.1 hx.2 hline ih

end Escape

/-- **A literal that stands for the text:** it lies between quotes of one kind. -/
inductive IsLiteral (s : String) : List Char → Prop where
  | double {raw} : Quoted '"' raw → Escape.decode raw = some s.toList →
    IsLiteral s ('"' :: (raw ++ ['"']))
  | single {raw} : Quoted '\'' raw → Escape.decode raw = some s.toList →
    IsLiteral s ('\'' :: (raw ++ ['\'']))

/-- Every text has a literal. -/
theorem isLiteral_encode (s : String) : IsLiteral s ('"' :: (Escape.encode s.toList ++ ['"'])) :=
  .double (Escape.encode_quoted _) (Escape.decode_encode _)

namespace Grammar

open RuleSet

/-- Inside a token, a pattern that is taken any number of times may be taken once first. -/
theorem RuleSet.Comes.many_of_star {ρ : Type} {g : RuleSet ρ} {at_ : Atomicity} {p : Pattern ρ}
    {c : Cursor} {m : Cursor × List (Node ρ)} (hat : at_ ≠ .loose)
    (h : g.Comes at_ (.star (.cat .blank p)) c (some m)) : g.Comes at_ (.many p) c (some m) := by
  have hblank : ∀ {c' : Cursor} {ns}, g.Comes at_ .blank c (some (c', ns)) → c' = c ∧ ns = [] := by
    rintro _ _ (_ | _)
    exact ⟨if_neg hat, rfl⟩
  cases h with
  | starEnd h =>
    cases h with
    | catFails h => cases h
    | catThenFails hb hp =>
      obtain ⟨rfl, -⟩ := hblank hb
      exact .optionalNot (.catFails hp)
  | star h hrest =>
    cases h with
    | cat hb hp =>
      obtain ⟨rfl, rfl⟩ := hblank hb
      exact .optional (.cat hp hrest)

/-- What a literal between quotes repeats. -/
def quotedChar (q : Char) : Pattern Rule :=
  .alt (.next (.lit "\\") (.char (.noneOf []))) (.char (.noneOf [q, '\\', '\n']))

variable {q : Char} {raw : List Char}

/-- A backslash is taken with the character behind it. -/
theorem escaped_comes (x : Char) (o : Nat) (rest : List Char) :
    script.Comes .atomic (quotedChar q) ⟨o, '\\' :: x :: rest⟩ (some (⟨o + 1 + 1, rest⟩, [])) :=
  .altFirst (.cat (.text rfl) (.cat (.blank (c := ⟨o + 1, x :: rest⟩)) (.char rfl)))

/-- Where there is no backslash, none is taken. -/
theorem backslash_fails {x : Char} (hx : x ≠ '\\') (o : Nat) (rest : List Char) :
    script.Comes .atomic (.next (.lit "\\") (.char (.noneOf []))) ⟨o, x :: rest⟩ none := by
  refine .catFails (.textFails (if_neg fun hpre => hx ?_))
  exact (List.cons_prefix_cons.1 (List.isPrefixOf_iff_prefix.1 hpre)).1.symm

/-- A character that is no backslash stands for itself. -/
theorem plain_comes {x : Char} (hquote : x ≠ q) (hslash : x ≠ '\\') (hline : x ≠ '\n') (o : Nat)
    (rest : List Char) :
    script.Comes .atomic (quotedChar q) ⟨o, x :: rest⟩ (some (⟨o + 1, rest⟩, [])) :=
  .altSecond (backslash_fails hslash o rest) (.char (by simp [CharClass.has, hquote, hslash, hline]))

/-- The characters of a literal end at the quote. -/
theorem quote_fails (hq : q ≠ '\\') (o : Nat) (rest : List Char) :
    script.Comes .atomic (quotedChar q) ⟨o, q :: rest⟩ none := by
  refine .altSecond (backslash_fails hq o rest) (.charFails fun x _ h => ?_)
  rw [← (List.cons.inj h).1]
  simp [CharClass.has]

/-- **The characters of a literal are taken up to the quote.** -/
theorem quoted_comes (hq : q ≠ '\\') (h : Quoted q raw) (o : Nat) (rest : List Char) :
    ∃ o', script.Comes .atomic (.star (.cat .blank (quotedChar q))) ⟨o, raw ++ q :: rest⟩
      (some (⟨o', q :: rest⟩, [])) := by
  induction h generalizing o with
  | nil => exact ⟨o, .starEnd (.catThenFails .blank (quote_fails hq o rest))⟩
  | plain hquote hslash hline _ ih =>
    obtain ⟨o', hrest⟩ := ih (o + 1)
    exact ⟨o', .star (.cat .blank (plain_comes hquote hslash hline o _)) hrest⟩
  | escaped _ ih =>
    obtain ⟨o', hrest⟩ := ih (o + 1 + 1)
    exact ⟨o', .star (.cat .blank (escaped_comes _ o _)) hrest⟩

/-- What stands between the quotes leaves a node with these characters. -/
theorem quoted_node {r : Rule} (hr : script.body r = Rule.quoted q) (hmode : script.mode r = .atomic)
    (hq : q ≠ '\\') (h : Quoted q raw) (o : Nat) (rest : List Char) :
    ∃ o' n, script.Comes .compound (.rule r) ⟨o, raw ++ q :: rest⟩ (some (⟨o', q :: rest⟩, [n])) ∧
      n.chars = raw := by
  obtain ⟨o', hchars⟩ := quoted_comes hq h o rest
  have hbody : script.Comes (script.atomicityIn r .compound) (script.body r)
      ⟨o, raw ++ q :: rest⟩ (some (⟨o', q :: rest⟩, [])) := by
    rw [hr, atomicityIn, hmode]
    exact hchars.many_of_star (by decide)
  have hrule := Comes.rule hbody
  rw [nodesOf, leaves, hmode] at hrule
  exact ⟨o', _, hrule, hrule.reaches.take_eq rfl⟩

/-- A node that has the text `s`. -/
def LiteralOf (s : String) (n : Node Rule) : Prop :=
  n.rule = .stringLiteral ∧ literalText n = .ok s

/-- **A literal is read as one node, which has its text.** -/
theorem IsLiteral.reads {s : String} {cs tail m : List Char} (h : IsLiteral s cs)
    (hm : ∀ n, (skipBlank n tail).rest = m) :
    script.Reads (.rule .stringLiteral) (cs ++ tail) m (Sole (LiteralOf s)) := by
  have htext : ∀ {raw : List Char} {n : Node Rule} {start stop}, n.chars = raw →
      Escape.decode raw = some s.toList →
      Sole (LiteralOf s) [.mk .stringLiteral start stop [n]] := fun hn hraw =>
    ⟨_, rfl, rfl, by simp [literalText, Node.children, hn, hraw]⟩
  intro o
  cases h with
  | @double raw h hraw =>
    obtain ⟨_, n, hquoted, hn⟩ := quoted_node (r := .doubleQuoted) rfl rfl (by decide) h (o + 1) tail
    have hbody : script.Comes .compound (script.body .stringLiteral)
        ⟨o, '"' :: (raw ++ '"' :: tail)⟩ _ :=
      .altFirst (.cat (.text rfl) (.cat .blank (.cat hquoted (.cat .blank (.text rfl)))))
    rw [List.cons_append, List.append_assoc]
    exact ⟨_, _, .rule hbody, hm _, htext hn hraw⟩
  -- the alternative with the other quote fails at once
  | @single raw h hraw =>
    obtain ⟨_, n, hquoted, hn⟩ := quoted_node (r := .singleQuoted) rfl rfl (by decide) h (o + 1) tail
    have hbody : script.Comes .compound (script.body .stringLiteral)
        ⟨o, '\'' :: (raw ++ '\'' :: tail)⟩ _ :=
      .altSecond (.catFails (.textFails rfl))
        (.cat (.text rfl) (.cat .blank (.cat hquoted (.cat .blank (.text rfl)))))
    rw [List.cons_append, List.append_assoc]
    exact ⟨_, _, .rule hbody, hm _, htext hn hraw⟩

end Grammar

end ScriptModules
