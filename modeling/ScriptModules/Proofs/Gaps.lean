import ScriptModules.Proofs.Glance

/-!
# Gaps between tokens

`Blank` describes runs of white space and complete comments. A `Gap` is such a run that begins with
white space, so that no token goes on in it. The matcher skips all of it (`skipBlank_append`), down
to a place where no blank begins (`Solid`).
-/

namespace ScriptModules.Grammar

/-- **Runs of white space and complete comments.** A comment that ends with its line is complete
with the end of that line, any other with the first `*/` in it. -/
inductive Blank : List Char → Prop where
  | nil : Blank []
  | space {x s} : isSpace x = true → Blank s → Blank (x :: s)
  | line {comment s} : '\n' ∉ comment → Blank s → Blank ('/' :: '/' :: (comment ++ '\n' :: s))
  | block {comment s} : ¬ ['*', '/'] <:+: comment → Blank s →
    Blank ('/' :: '*' :: (comment ++ '*' :: '/' :: s))

/-- What may stand between two tokens: blank that begins with white space. -/
structure Gap (g : List Char) : Prop where
  blank : Blank g
  begins : ∃ x rest, g = x :: rest ∧ isSpace x = true

/-- No blank begins here. -/
def Solid (s : List Char) : Prop := ∀ n, skipBlank n s = ⟨n, s⟩

theorem solid_nil : Solid [] := fun _ => rfl

theorem Gap.edge {g : List Char} (h : Gap g) (s : List Char) : Edge (g ++ s) := by
  obtain ⟨x, rest, rfl, hx⟩ := h.begins
  intro y rest' he
  rw [List.cons_append] at he
  rw [← (List.cons.inj he).1]
  exact hx

theorem edge_nil : Edge [] := fun _ _ h => by cases h

/-- A line comment is skipped with its line end. -/
theorem skipLine_append {comment : List Char} (h : '\n' ∉ comment) (n : Nat) (s : List Char) :
    skipLine n (comment ++ '\n' :: s) = skipBlank (n + comment.length + 1) s := by
  induction comment generalizing n with
  | nil => rw [List.nil_append, skipLine, List.length_nil, Nat.add_zero]
  | cons x comment ih =>
    rw [List.mem_cons, not_or] at h
    rw [List.cons_append, skipLine.eq_2 n x _ fun hx => h.1 hx.symm, ih h.2, List.length_cons]
    congr 1
    omega

/-- A comment is skipped with the signs that close it. -/
theorem skipBlock_append {comment : List Char} (h : ¬ ['*', '/'] <:+: comment) (start : Cursor)
    (n : Nat) (s : List Char) : skipBlock start n (comment ++ '*' :: '/' :: s) =
      skipBlank (n + comment.length + 2) s := by
  induction comment generalizing n with
  | nil => rw [List.nil_append, skipBlock, List.length_nil, Nat.add_zero]
  | cons x comment ih =>
    have hnext : ∀ rest, x = '*' → comment ++ '*' :: '/' :: s = '/' :: rest → False := by
      rintro rest rfl he
      cases comment with
      | nil => cases he
      | cons y comment =>
        obtain rfl : y = '/' := (List.cons.inj he).1
        exact h ⟨[], comment, rfl⟩
    have hrest : ¬ ['*', '/'] <:+: comment := fun hc => h (hc.trans (List.suffix_cons x _).isInfix)
    rw [List.cons_append, skipBlock.eq_2 start n x _ hnext, ih hrest, List.length_cons]
    congr 1
    omega

/-- **Blank is skipped.** -/
theorem skipBlank_append {g : List Char} (h : Blank g) (n : Nat) (s : List Char) :
    skipBlank n (g ++ s) = skipBlank (n + g.length) s := by
  induction h generalizing n with
  | nil => rfl
  | @space x g hx _ ih =>
    have hslash : x ≠ '/' := by
      rintro rfl
      revert hx
      decide
    rw [List.cons_append, skipBlank.eq_3 n x _ (fun _ h _ => hslash h) (fun _ h _ => hslash h),
      if_pos hx, ih, List.length_cons]
    congr 1
    omega
  | line hcomment _ ih =>
    rw [List.cons_append, List.cons_append, skipBlank, List.append_assoc, List.cons_append,
      skipLine_append hcomment, ih]
    congr 1
    simp only [List.length_cons, List.length_append]
    omega
  | block hcomment _ ih =>
    rw [List.cons_append, List.cons_append, skipBlank, List.append_assoc, List.cons_append,
      List.cons_append, skipBlock_append hcomment, ih]
    congr 1
    simp only [List.length_cons, List.length_append]
    omega

/-- Behind the blank is the place where the next token begins. -/
theorem Solid.behind_blank {g s : List Char} (h : Solid s) (hg : Blank g) (n : Nat) :
    (skipBlank n (g ++ s)).rest = s := by
  rw [skipBlank_append hg, h]

end ScriptModules.Grammar
