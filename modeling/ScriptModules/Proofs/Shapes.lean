import ScriptModules.Proofs.Reading

/-!
# The shape of what a match leaves

`Pattern.Shapes` says which nodes a pattern can leave when the text is forgotten: one node for a rule,
the nodes of the parts one after the other for patterns in sequence, and so on. It takes for granted
what is known of the node of each rule. A `Law` of nodes holds of the node of a rule whenever it is taken
for granted of the nodes inside, and so it holds of every node of every match (`Law.shapes`): one
induction for all laws, with one case for each rule left to do.
-/

namespace ScriptModules.Grammar

variable {ρ : Type}

namespace Pattern

/-- **The nodes that a pattern can leave,** if the node of every rule is like this. -/
def Shapes (A : ρ → Node ρ → Prop) : Pattern ρ → List (Node ρ) → Prop
  | rule r, ns => Sole (A r) ns
  | cat p q, ns => Then (p.Shapes A) (q.Shapes A) ns
  | alt p q, ns => p.Shapes A ns ∨ q.Shapes A ns
  | optional p, ns => ns = [] ∨ p.Shapes A ns
  | star p, ns => ∃ parts, ns = List.flatten parts ∧ ∀ part ∈ parts, p.Shapes A part
  | text _, ns | char _, ns | blank, ns | finish, ns | not _, ns => ns = []

variable {A : ρ → Node ρ → Prop} {p q : Pattern ρ} {r : ρ} {ns : List (Node ρ)}

/-- Blank leaves nothing. -/
theorem shapes_next : (next p q).Shapes A ns ↔ Then (p.Shapes A) (q.Shapes A) ns := by
  constructor
  · rintro ⟨before, _, rfl, hp, _, after, rfl, rfl, hq⟩
    exact ⟨before, after, rfl, hp, hq⟩
  · rintro ⟨before, after, rfl, hp, hq⟩
    exact ⟨before, after, rfl, hp, [], after, rfl, rfl, hq⟩

/-- A rule leaves the first node. -/
theorem shapes_rule_next :
    (next (rule r) q).Shapes A ns ↔ ∃ n rest, ns = n :: rest ∧ A r n ∧ q.Shapes A rest := by
  rw [shapes_next]
  constructor
  · rintro ⟨_, rest, rfl, ⟨n, rfl, hn⟩, hq⟩
    exact ⟨n, rest, rfl, hn, hq⟩
  · rintro ⟨n, rest, rfl, hn, hq⟩
    exact ⟨[n], rest, rfl, ⟨n, rfl, hn⟩, hq⟩

/-- A text leaves nothing. -/
theorem shapes_lit_next {s : String} : (next (lit s) q).Shapes A ns ↔ q.Shapes A ns := by
  rw [shapes_next]
  constructor
  · rintro ⟨_, _, rfl, rfl, hq⟩
    exact hq
  · intro hq
    exact ⟨[], ns, rfl, rfl, hq⟩

/-- Nothing is left behind the first part. -/
theorem shapes_next_nothing (hq : ∀ ns, q.Shapes A ns → ns = []) (h : (next p q).Shapes A ns) :
    p.Shapes A ns := by
  obtain ⟨before, after, rfl, hp, hafter⟩ := shapes_next.mp h
  rw [hq after hafter, List.append_nil]
  exact hp

theorem shapes_lit {s : String} (h : (lit s : Pattern ρ).Shapes A ns) : ns = [] := h

theorem shapes_optional_lit {s : String} (h : (optional (lit s) : Pattern ρ).Shapes A ns) : ns = [] :=
  h.elim id id

/-- Between two texts. -/
theorem shapes_enclosed {s t : String} (h : (seq (lit s) [p, lit t]).Shapes A ns) : p.Shapes A ns :=
  shapes_next_nothing (fun _ => shapes_lit) (shapes_lit_next.mp h)

/-- Before a text that may be missing. -/
theorem shapes_terminated {s : String} (h : (next p (optional (lit s))).Shapes A ns) :
    p.Shapes A ns :=
  shapes_next_nothing (fun _ => shapes_optional_lit) h

/-- A pattern any number of times leaves its nodes as often. -/
theorem shapes_many (h : (many p).Shapes A ns) :
    ∃ parts, ns = List.flatten parts ∧ ∀ part ∈ parts, p.Shapes A part := by
  rcases h with rfl | ⟨first, _, rfl, hfirst, parts, rfl, hparts⟩
  · exact ⟨[], rfl, by simp⟩
  · refine ⟨first :: parts, rfl, ?_⟩
    intro part hpart
    rcases List.mem_cons.mp hpart with rfl | hpart
    · exact hfirst
    · obtain ⟨_, after, rfl, rfl, hp⟩ := hparts part hpart
      exact hp

/-- If a pattern leaves nodes of one kind, then any number of times it does too. -/
theorem shapes_many_all {B : Node ρ → Prop} (hp : ∀ ns, p.Shapes A ns → ∀ n ∈ ns, B n)
    (h : (many p).Shapes A ns) : ∀ n ∈ ns, B n := by
  obtain ⟨parts, rfl, hparts⟩ := shapes_many h
  intro n hn
  obtain ⟨part, hpart, hn⟩ := List.mem_flatten.mp hn
  exact hp part (hparts part hpart) n hn

theorem shapes_rule_all (h : (rule r).Shapes A ns) : ∀ n ∈ ns, A r n := by
  obtain ⟨n, rfl, hn⟩ := h
  simpa using hn

/-- Items of one kind. -/
theorem shapes_many_rule (h : (many (rule r)).Shapes A ns) : ∀ n ∈ ns, A r n :=
  shapes_many_all (fun _ => shapes_rule_all) h

/-- Items of one kind, each behind a text. -/
theorem shapes_many_behind {s : String} (h : (many (next (lit s) (rule r))).Shapes A ns) :
    ∀ n ∈ ns, A r n :=
  shapes_many_all (fun _ h => shapes_rule_all (shapes_lit_next.mp h)) h

/-- Items of one kind with commas between. -/
theorem shapes_commas (h : (commas (rule r)).Shapes A ns) : ∀ n ∈ ns, A r n := by
  obtain ⟨n, rest, rfl, hn, hrest⟩ := shapes_rule_next.mp h
  intro n' hn'
  rcases List.mem_cons.mp hn' with rfl | hn'
  · exact hn
  · exact shapes_many_behind hrest n' hn'

/-- Items of one kind with commas between, if there are any. -/
theorem shapes_optional_commas (h : (optional (commas (rule r))).Shapes A ns) : ∀ n ∈ ns, A r n := by
  rcases h with rfl | h
  · simp
  · exact shapes_commas h

/-- The same with one more comma behind the last. -/
theorem shapes_optional_list {s : String}
    (h : (optional (next (commas (rule r)) (optional (lit s)))).Shapes A ns) : ∀ n ∈ ns, A r n := by
  rcases h with rfl | h
  · simp
  · exact shapes_commas (shapes_terminated h)

end Pattern

namespace RuleSet

variable {g : RuleSet ρ} {A : ρ → Node ρ → Prop}

/-- **A law of nodes:** it holds of the node of a rule if it holds of those inside. What a token has
inside is its text. -/
structure Law (g : RuleSet ρ) (A : ρ → Node ρ → Prop) : Prop where
  silent : ∀ {r ns}, g.mode r = .silent → (g.body r).Shapes A ns → Sole (A r) ns
  token : ∀ {r c c' ns}, g.mode r = .atomic → g.Comes .atomic (g.body r) c (some (c', ns)) →
    A r (.mk r c c'.offset ns)
  node : ∀ {r start stop ns}, g.mode r ≠ .silent → g.mode r ≠ .atomic → (g.body r).Shapes A ns →
    A r (.mk r start stop ns)

/-- **A law of nodes holds of what every match leaves.** -/
theorem Law.shapes (L : g.Law A) {at_ : Atomicity} {p : Pattern ρ} {c c' : Cursor}
    {ns : List (Node ρ)} (h : g.Comes at_ p c (some (c', ns))) (hat : at_ ≠ .atomic) :
    p.Shapes A ns := by
  -- by induction on the derivation; what fails leaves nothing to speak of
  generalize hr : some (c', ns) = r at h
  induction h generalizing c' ns with
  | text _ | char _ | blank | finish _ | not _ _ =>
    cases hr
    rfl
  | cat _ _ ihp ihq =>
    cases hr
    exact ⟨_, _, rfl, ihp hat rfl, ihq hat rfl⟩
  | altFirst _ ih => exact .inl (ih hat hr)
  | altSecond _ _ _ ih => exact .inr (ih hat hr)
  | optional _ ih => exact .inr (ih hat hr)
  | optionalNot _ _ =>
    cases hr
    exact .inl rfl
  | starEnd _ _ =>
    cases hr
    exact ⟨[], rfl, by simp⟩
  | star _ _ ihp ihs =>
    cases hr
    obtain ⟨parts, rfl, hparts⟩ := ihs hat rfl
    exact ⟨_ :: parts, rfl, List.forall_mem_cons.mpr ⟨ihp hat rfl, hparts⟩⟩
  | @rule at_ r c c' ns h ih =>
    cases hr
    show Sole (A r) _
    cases hmode : g.mode r with
    | silent =>
      rw [nodesOf, leaves, hmode]
      rw [atomicityIn, hmode] at ih
      exact L.silent hmode (ih hat rfl)
    | plain =>
      rw [nodesOf, leaves, hmode, if_pos (by simpa using hat)]
      rw [atomicityIn, hmode] at ih
      exact ⟨_, rfl, L.node (by simp [hmode]) (by simp [hmode]) (ih hat rfl)⟩
    | atomic =>
      -- inside a token the law does not hold, so that its text is all that is known
      rw [nodesOf, leaves, hmode, if_pos (by simpa using hat)]
      rw [atomicityIn, hmode] at h
      exact ⟨_, rfl, L.token hmode h⟩
    | compound =>
      rw [nodesOf, leaves, hmode, if_pos rfl]
      rw [atomicityIn, hmode] at ih
      exact ⟨_, rfl, L.node (by simp [hmode]) (by simp [hmode]) (ih (show Atomicity.compound ≠ .atomic by decide) rfl)⟩
  | textFails _ | charFails _ | finishFails _ | catFails _ _ | catThenFails _ _ _ _ | notFails _ _
  | ruleFails _ _ => cases hr

end RuleSet

end ScriptModules.Grammar
