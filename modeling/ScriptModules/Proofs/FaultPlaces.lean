import Mathlib.Data.List.Induction
import ScriptModules.Proofs.Agreement
import ScriptModules.Proofs.FurthestFailure

/-!
# Where syntax errors show

A text is refused by the grammar, or else its nodes are refused by the functions that build trees. The
first error shows at the furthest place at which a rule failed. The second shows where the construct
begins that is at fault: a declarator without a value, what is assigned to, or a literal with a bad
escape (`SyntaxCause.ShowsAt`). Both places lie in the text, and a message tells them by line and
column.

The functions that build trees call each other. What they share is `Built.FaultsIn`: there is no fault,
or one that shows in the whole tree. One lemma for each function carries this from what lies in a node
to the node, and `Node.forall_inside` is the induction that puts them together. For a text that is
refused, everything is in what the matcher keeps (`Reporting.run_tracks`).
-/

namespace ScriptModules

open Grammar (Node Rule Cursor RuleSet Pattern Atomicity Position Sole)

/-! ### Lines and columns -/

namespace Grammar.Position

/-- The position behind one more character. -/
theorem after_append_singleton (p : Position) (cs : List Char) (c : Char) :
    p.after (cs ++ [c]) = if c = '\n' then ⟨(p.after cs).line + 1, 1⟩
      else ⟨(p.after cs).line, (p.after cs).column + 1⟩ := by
  induction cs generalizing p with
  | nil => rfl
  | cons d cs ih => exact ih _

/-- **The line counts the line ends before a place, and the column the characters since the last of
them,** both from one. -/
theorem ofOffset_eq (text : List Char) (o : Nat) :
    (ofOffset text o).line = (text.take o).count '\n' + 1 ∧
      (ofOffset text o).column = ((text.take o).reverse.takeWhile (· != '\n')).length + 1 := by
  unfold ofOffset
  induction text.take o using List.reverseRecOn with
  | nil => exact ⟨rfl, rfl⟩
  | append_singleton cs c ih =>
    obtain ⟨hline, hcolumn⟩ := ih
    rw [after_append_singleton, List.reverse_append, List.reverse_singleton, List.singleton_append,
      List.count_append]
    by_cases hc : c = '\n'
    · subst hc
      simp [hline]
    · simp [hc, hline, hcolumn]

end Grammar.Position

/-! ### Nodes in nodes -/

namespace Grammar.Node

variable {ρ : Type} {x m n : Node ρ}

/-- **A node lies in another:** it is that node or lies in one of its children. -/
inductive Inside : Node ρ → Node ρ → Prop where
  | self (n : Node ρ) : Inside n n
  | part {x m n : Node ρ} : m ∈ n.children → Inside x m → Inside x n

theorem Inside.trans (h : x.Inside m) (h' : m.Inside n) : x.Inside n := by
  induction h' with
  | self => exact h
  | part hmem _ ih => exact .part hmem ih

theorem Inside.child (h : m ∈ n.children) : m.Inside n := .part h (.self m)

variable {P : Node ρ → Prop}

mutual

/-- What holds of a node if it holds of all that lie in its children holds of all that lie in any. -/
theorem forall_inside (step : ∀ n, (∀ m ∈ n.children, ∀ x, x.Inside m → P x) → P n) :
    ∀ n x : Node ρ, x.Inside n → P x
  | .mk rule start stop children, x, hx => by
    have hchildren := forall_inside_children step children
    cases hx with
    | self => exact step _ hchildren
    | part hmem hx => exact hchildren _ hmem x hx

theorem forall_inside_children (step : ∀ n, (∀ m ∈ n.children, ∀ x, x.Inside m → P x) → P n) :
    ∀ ns : List (Node ρ), ∀ m ∈ ns, ∀ x : Node ρ, x.Inside m → P x
  | [], _, hm => nomatch hm
  | n :: ns, m, hm => by
    have hfirst := forall_inside step n
    have hrest := forall_inside_children step ns
    rcases List.mem_cons.1 hm with rfl | hm
    · exact hfirst
    · exact hrest m hm

end

end Grammar.Node

/-- **The nodes of a match stand in what is matched,** those in other nodes too. -/
theorem Grammar.RuleSet.Comes.node_reached {ρ : Type} {g : RuleSet ρ} {at_ : Atomicity}
    {p : Pattern ρ} {c c' : Cursor} {ns : List (Node ρ)} (h : g.Comes at_ p c (some (c', ns)))
    {n x : Node ρ} (hn : n ∈ ns) (hx : x.Inside n) :
    ∃ start : Cursor, c.Reaches start ∧ x.offset = start.offset ∧ x.chars <+: start.rest := by
  generalize hr : some (c', ns) = r at h
  -- what a rule leaves is a node around the nodes of its body, so `n` varies with the derivation
  induction h generalizing c' ns n with
  | text _ | char _ | blank | finish _ | optionalNot _ _ | starEnd _ _ | not _ _ =>
    cases hr
    cases hn
  | cat hp _ ihp ihq | star hp _ ihp ihq =>
    cases hr
    rcases List.mem_append.1 hn with hn | hn
    · exact ihp hn hx rfl
    · obtain ⟨start, hreach, hstands⟩ := ihq hn hx rfl
      exact ⟨start, hp.reaches.trans hreach, hstands⟩
  | altFirst _ ih | altSecond _ _ _ ih | optional _ ih => exact ih hn hx hr
  | @rule at_ r c c₁ ns₁ h ih =>
    cases hr
    unfold RuleSet.nodesOf at hn
    split at hn
    · obtain rfl := List.mem_singleton.1 hn
      cases hx with
      | self => exact ⟨c, .refl c, rfl, List.take_prefix _ _⟩
      | part hmem hx => exact ih hmem hx rfl
    · exact ih hn hx rfl
  | textFails _ | charFails _ | finishFails _ | catFails _ _ | catThenFails _ _ _ _ | notFails _ _
  | ruleFails _ _ => cases hr

/-! ### What is at fault -/

/-- **Where a fault shows in a tree:** at a declarator of a constant that has no value, at what is
assigned to and is no target, or at a literal whose text has a bad escape. -/
inductive SyntaxCause.ShowsAt (tree : Node Rule) : SyntaxCause → Node Rule → Prop where
  | missingInitializer {start stop kind ds start' stop' name}
      (h : (Node.mk .variableStatement start stop (kind :: ds)).Inside tree)
      (hkind : DeclarationKind.ofText kind.text = .const)
      (hn : .mk .variableDeclaration start' stop' [name] ∈ ds) :
      ShowsAt tree .missingInitializer (.mk .variableDeclaration start' stop' [name])
  | invalidTarget {start stop target op value left}
      (h : (Node.mk .assignment start stop [target, op, value]).Inside tree)
      (hleft : Expr.ofNode target = .ok left) (hnone : left.toTarget? = none) :
      ShowsAt tree .invalidTarget target
  | invalidEscape {start stop raw} (h : (Node.mk .stringLiteral start stop [raw]).Inside tree)
      (hraw : Escape.decode raw.chars = none) :
      ShowsAt tree .invalidEscape (.mk .stringLiteral start stop [raw])

/-- What shows in a tree lies in it. -/
theorem SyntaxCause.ShowsAt.inside {tree n : Node Rule} {cause : SyntaxCause}
    (h : cause.ShowsAt tree n) : n.Inside tree := by
  cases h with
  | missingInitializer h _ hn => exact (Node.Inside.child (List.mem_cons_of_mem _ hn)).trans h
  | invalidTarget h _ _ => exact (Node.Inside.child List.mem_cons_self).trans h
  | invalidEscape h _ => exact h

/-- **What is built has no fault, or one that shows in the tree** at the place that it names. The
nodes may also be those of no match. -/
def Built.FaultsIn {α : Type} (tree : Node Rule) : Built α → Prop
  | .ok _ => True
  | .error f => f.cause = .malformed ∨ ∃ n, f.cause.ShowsAt tree n ∧ f.offset = n.offset

namespace Built.FaultsIn

variable {α β : Type} {tree : Node Rule} {x : Built α}

theorem malformed (n : Node Rule) : FaultsIn tree (fault .malformed n : Built α) := .inl rfl

theorem shows {cause : SyntaxCause} {n : Node Rule} (h : cause.ShowsAt tree n) :
    FaultsIn tree (fault cause n : Built α) := .inr ⟨n, h, rfl⟩

theorem bind {f : α → Built β} (hx : FaultsIn tree x) (hf : ∀ a, x = .ok a → FaultsIn tree (f a)) :
    FaultsIn tree (x >>= f) := by
  cases x with
  | ok a => exact hf a rfl
  | error e => exact hx

theorem map {f : α → β} (hx : FaultsIn tree x) : FaultsIn tree (x.map f) := by
  cases x with
  | ok a => trivial
  | error e => exact hx

end Built.FaultsIn

open Built (FaultsIn)

/-! ### What nodes become -/

section

variable {tree n : Node Rule} {ns : List (Node Rule)}

/-- **A node leads to no fault but those that show in the tree,** as a statement or an expression. -/
def Traced (tree n : Node Rule) : Prop :=
  FaultsIn tree (Stmt.ofNode n) ∧ FaultsIn tree (Expr.ofNode n)

theorem literalText_faultsIn (hn : n.Inside tree) (hrule : n.rule = .stringLiteral) :
    FaultsIn tree (literalText n) := by
  obtain ⟨start, stop, parts, rfl⟩ := Node.exists_mk hrule
  unfold literalText
  split
  · next raw hraw =>
    cases hdecode : Escape.decode raw.chars with
    | some cs => trivial
    | none =>
      obtain rfl : parts = [raw] := hraw
      exact .shows (.invalidEscape hn hdecode)
  · exact .malformed _

theorem keyText_faultsIn (hn : n.Inside tree) : FaultsIn tree (keyText n) := by
  unfold keyText
  split
  · next hrule => exact literalText_faultsIn hn hrule
  · trivial

theorem leaf_faultsIn (hn : n.Inside tree) : FaultsIn tree (leaf n) := by
  unfold leaf
  split
  · cases Number.read? n.chars with
    | some x => trivial
    | none => exact .malformed n
  · next hrule => exact (literalText_faultsIn hn hrule).map
  · trivial
  · trivial
  · trivial
  · trivial
  · trivial
  · exact .malformed n

theorem ofNodes_statements_faultsIn (h : ∀ m ∈ ns, Traced tree m) :
    FaultsIn tree (Stmt.ofNodes ns) := by
  induction ns with
  | nil => trivial
  | cons n ns ih =>
    obtain ⟨hn, hns⟩ := List.forall_mem_cons.mp h
    unfold Stmt.ofNodes
    split
    · trivial
    · next heq =>
      cases heq
      exact ih hns
    · next heq =>
      cases heq
      exact hn.1.bind fun _ _ => (ih hns).bind fun _ _ => trivial

theorem ofNodes_expressions_faultsIn (h : ∀ m ∈ ns, Traced tree m) :
    FaultsIn tree (Expr.ofNodes ns) := by
  induction ns with
  | nil => trivial
  | cons n ns ih =>
    obtain ⟨hn, hns⟩ := List.forall_mem_cons.mp h
    rw [Expr.ofNodes]
    exact hn.2.bind fun _ _ => (ih hns).bind fun _ _ => trivial

theorem ofNodes_declarators_faultsIn {start : Cursor} {stop : Nat} {kind : Node Rule}
    (hn : (Node.mk .variableStatement start stop (kind :: ns)).Inside tree) :
    ∀ ds, (∀ d ∈ ds, d ∈ ns) → (∀ d ∈ ds, ∀ m ∈ d.children, Traced tree m) →
      FaultsIn tree (Declarator.ofNodes (.ofText kind.text) ds) := by
  intro ds hmem h
  -- the statement stays the whole one while the induction takes its declarators off
  induction ds with
  | nil => trivial
  | cons d ds ih =>
    obtain ⟨hd, hds⟩ := List.forall_mem_cons.mp h
    obtain ⟨hdmem, hdsmem⟩ := List.forall_mem_cons.mp hmem
    have hrest := ih hdsmem hds
    unfold Declarator.ofNodes
    split
    · trivial
    · next heq =>
      cases heq
      split
      · next hkind => exact .shows (.missingInitializer hn hkind hdmem)
      · exact hrest.bind fun _ _ => trivial
    · next heq =>
      cases heq
      have hinit := hd _ (List.mem_cons_of_mem _ List.mem_cons_self)
      exact hinit.2.bind fun _ _ => hrest.bind fun _ _ => trivial
    · next heq =>
      cases heq
      exact .malformed _

theorem applyNodes_faultsIn (h : ∀ m ∈ ns, ∀ x ∈ m.children, Traced tree x) :
    ∀ e, FaultsIn tree (Expr.applyNodes e ns) := by
  induction ns with
  | nil => exact fun _ => trivial
  | cons n ns ih =>
    obtain ⟨hn, hns⟩ := List.forall_mem_cons.mp h
    intro e
    unfold Expr.applyNodes
    split
    · trivial
    · next heq =>
      cases heq
      exact (ofNodes_expressions_faultsIn hn).bind fun _ _ => ih hns _
    · next heq =>
      cases heq
      exact ih hns _
    · next heq =>
      cases heq
      exact (hn _ List.mem_cons_self).2.bind fun _ _ => ih hns _
    · next heq =>
      cases heq
      exact .malformed _

theorem ofNodes_rows_faultsIn (h : ∀ m ∈ ns, Traced tree m) :
    FaultsIn tree (RowItem.ofNodes ns) := by
  induction ns with
  | nil => trivial
  | cons n ns ih =>
    obtain ⟨hn, hns⟩ := List.forall_mem_cons.mp h
    unfold RowItem.ofNodes
    split
    · trivial
    · next heq =>
      cases heq
      exact hn.2.bind fun _ _ => (ih hns).bind fun _ _ => trivial
    · next heq =>
      cases heq
      split
      · exact (ih hns).bind fun _ _ => trivial
      · exact (ih hns).bind fun _ _ => trivial
      · exact .malformed _

theorem ofNodes_properties_faultsIn (hin : ∀ m ∈ ns, m.Inside tree)
    (h : ∀ m ∈ ns, ∀ x ∈ m.children, Traced tree x) : FaultsIn tree (Property.ofNodes ns) := by
  induction ns with
  | nil => trivial
  | cons n ns ih =>
    obtain ⟨hn, hns⟩ := List.forall_mem_cons.mp h
    obtain ⟨hnin, hnsin⟩ := List.forall_mem_cons.mp hin
    have hrest := ih hnsin hns
    unfold Property.ofNodes
    split
    · trivial
    · next heq =>
      cases heq
      exact hrest.bind fun _ _ => trivial
    · next heq =>
      cases heq
      have hkey := keyText_faultsIn ((Node.Inside.child List.mem_cons_self).trans hnin)
      have hvalue := hn _ (List.mem_cons_of_mem _ List.mem_cons_self)
      exact hkey.bind fun _ _ => hvalue.2.bind fun _ _ => hrest.bind fun _ _ => trivial
    · next heq =>
      cases heq
      exact .malformed _

/-- **A statement leads to no other faults** if what lies in it does not. -/
theorem ofNode_statement_faultsIn (hn : n.Inside tree)
    (h : ∀ m ∈ n.children, ∀ x, x.Inside m → Traced tree x) : FaultsIn tree (Stmt.ofNode n) := by
  -- most of what is built is built from the children, the bodies of functions from theirs
  have hparts : ∀ m ∈ n.children, Traced tree m := fun m hm => h m hm m (.self m)
  have hdeep : ∀ m ∈ n.children, ∀ x ∈ m.children, Traced tree x := fun m hm x hx =>
    h m hm x (.child hx)
  unfold Stmt.ofNode
  split <;> simp only [Node.children, List.forall_mem_cons] at hparts hdeep
  · obtain ⟨he, -⟩ := hparts
    exact he.2.bind fun _ _ => trivial
  · obtain ⟨-, hds⟩ := hdeep
    exact (ofNodes_declarators_faultsIn hn _ (fun _ hd => hd) hds).bind fun _ _ => trivial
  · obtain ⟨-, -, -, hbody, -⟩ := hdeep
    exact (ofNodes_statements_faultsIn hbody).bind fun _ _ => trivial
  · trivial
  · obtain ⟨-, he, -⟩ := hparts
    exact he.2.bind fun _ _ => trivial
  · obtain ⟨-, htest, hc, -⟩ := hparts
    exact htest.2.bind fun _ _ => hc.1.bind fun _ _ => trivial
  · obtain ⟨-, htest, hc, -, ha, -⟩ := hparts
    exact htest.2.bind fun _ _ => hc.1.bind fun _ _ => ha.1.bind fun _ _ => trivial
  · obtain ⟨-, he, -⟩ := hparts
    exact he.2.bind fun _ _ => trivial
  · exact (ofNodes_statements_faultsIn hparts).bind fun _ _ => trivial
  · trivial
  · exact .malformed _

/-- **An expression leads to no other faults** if what lies in it does not. -/
theorem ofNode_expression_faultsIn (hn : n.Inside tree)
    (h : ∀ m ∈ n.children, ∀ x, x.Inside m → Traced tree x) : FaultsIn tree (Expr.ofNode n) := by
  -- most of what is built is built from the children, the bodies of functions from theirs
  have hparts : ∀ m ∈ n.children, Traced tree m := fun m hm => h m hm m (.self m)
  have hdeep : ∀ m ∈ n.children, ∀ x ∈ m.children, Traced tree x := fun m hm x hx =>
    h m hm x (.child hx)
  unfold Expr.ofNode
  split <;> simp only [Node.children, List.forall_mem_cons] at hparts hdeep
  · obtain ⟨-, hbody, -⟩ := hdeep
    exact (ofNodes_statements_faultsIn hbody).bind fun _ _ => trivial
  · obtain ⟨-, he, -⟩ := hparts
    exact he.2.bind fun _ _ => trivial
  · obtain ⟨htarget, -, hvalue, -⟩ := hparts
    refine htarget.2.bind fun left hleft => ?_
    cases hnone : left.toTarget? with
    | none => exact .shows (.invalidTarget hn hleft hnone)
    | some t => exact hvalue.2.bind fun _ _ => trivial
  · obtain ⟨htest, -⟩ := hparts
    exact htest.2
  · obtain ⟨htest, hc, ha, -⟩ := hparts
    exact htest.2.bind fun _ _ => hc.2.bind fun _ _ => ha.2.bind fun _ _ => trivial
  · refine (ofNodes_rows_faultsIn hparts).bind fun items _ => ?_
    cases RowItem.toExpr? items with
    | some e => trivial
    | none => exact .malformed _
  · obtain ⟨hfirst, -⟩ := hparts
    obtain ⟨-, hops⟩ := hdeep
    exact hfirst.2.bind fun _ _ => applyNodes_faultsIn hops _
  · obtain ⟨-, -, hbody, -⟩ := hdeep
    exact (ofNodes_statements_faultsIn hbody).bind fun _ _ => trivial
  · obtain ⟨-, -, -, hbody, -⟩ := hdeep
    exact (ofNodes_statements_faultsIn hbody).bind fun _ _ => trivial
  · exact (ofNodes_expressions_faultsIn hparts).bind fun _ _ => trivial
  · exact (ofNodes_properties_faultsIn (fun m hm => (Node.Inside.child hm).trans hn) hdeep).bind
      fun _ _ => trivial
  · obtain ⟨he, -⟩ := hparts
    exact he.2
  · exact leaf_faultsIn hn

/-- **Whatever lies in a tree leads to no fault but those that show in it.** -/
theorem traced_of_inside (hn : n.Inside tree) : Traced tree n := by
  -- the induction is on the tree that is walked; faults show in the whole of it
  refine Node.forall_inside (P := fun x => x.Inside tree → Traced tree x) ?_ tree n hn hn
  intro n ih hn
  have h : ∀ m ∈ n.children, ∀ x, x.Inside m → Traced tree x := fun m hm x hx =>
    ih m hm x hx (hx.trans ((Node.Inside.child hm).trans hn))
  exact ⟨ofNode_statement_faultsIn hn h, ofNode_expression_faultsIn hn h⟩

/-- **The statements of a tree lead to no fault but those that show in it.** -/
theorem ofNodes_children_faultsIn (tree : Node Rule) :
    FaultsIn tree (Stmt.ofNodes tree.children) :=
  ofNodes_statements_faultsIn fun _ hm => traced_of_inside (.child hm)

end

/-! ### Expected rules -/

theorem mem_expectedRules {attempted : List Rule} {r : Rule} :
    r ∈ expectedRules attempted ↔ r ∈ attempted := by
  have hall : r ∈ Rule.all := by cases r <;> decide
  unfold expectedRules
  rw [List.mem_filter, List.contains_iff_mem]
  exact and_iff_right hall

/-- No two rules have one name, so none is named twice. -/
theorem expectedRules_names_nodup (attempted : List Rule) :
    ((expectedRules attempted).map Rule.name).Nodup := by
  have hall : (Rule.all.map Rule.name).Nodup := by decide +kernel
  exact (List.filter_sublist.map Rule.name).nodup hall

/-! ### Places in a text -/

/-- What is reached from the start of a text lies in it, and there the text goes on. -/
theorem Grammar.Cursor.Reaches.in_text {s : List Char} {c : Cursor}
    (h : (Cursor.start s).Reaches c) : c.offset ≤ s.length ∧ c.rest = s.drop c.offset := by
  obtain ⟨taken, hrest, hoffset⟩ := h
  obtain rfl : s = taken ++ c.rest := hrest
  obtain ho : c.offset = taken.length := hoffset.trans (Nat.zero_add _)
  rw [ho, List.length_append, List.drop_left]
  exact ⟨Nat.le_add_right _ _, rfl⟩

/-- **The grammar refuses a text.** -/
def Refuses (s : String) : Prop :=
  Grammar.script.Comes .loose (.rule .script) (Cursor.start s.toList) none

/-- **A call of a rule that counts failed** at an offset of a text. -/
def MissedIn (s : String) (r : Rule) (o : Nat) : Prop :=
  Grammar.script.Missed .loose (.rule .script) (Cursor.start s.toList) r o

/-- The matcher fails where the rule does. -/
theorem failed_iff_comes {r : Rule} {s : List Char} :
    (Grammar.script.run (matchFuel s.length) .loose (.rule r) (Cursor.start s) {}).1 = .failed ↔
      Grammar.script.Comes .loose (.rule r) (Cursor.start s) none := by
  have hends := matching_ends r s
  have hagrees := (Grammar.script.run_agrees (matchFuel s.length)).1 .loose (.rule r)
    (Cursor.start s) {}
  cases hv : (Grammar.script.run (matchFuel s.length) .loose (.rule r) (Cursor.start s) {}).1 with
  | matched c ns =>
    rw [hv] at hagrees
    have hcomes : Grammar.script.Comes .loose (.rule r) (Cursor.start s) (some (c, ns)) := hagrees
    refine iff_of_false (by simp) fun h => ?_
    cases hcomes.unique h
  | failed =>
    rw [hv] at hagrees
    exact iff_of_true rfl hagrees
  | exhausted => exact absurd hv hends

/-- Whatever the matcher answers, it kept track of all failures. -/
theorem run_tracks_missed (r : Rule) (s : List Char) :
    (Grammar.script.run (matchFuel s.length) .loose (.rule r) (Cursor.start s) {}).2.Tracks
      (Grammar.script.Missed .loose (.rule r) (Cursor.start s)) := by
  have hkept := (Grammar.script_reporting.run_tracks (matchFuel s.length)).1 .loose (.rule r)
    (Cursor.start s) {} _ (by decide) rfl .none (matching_ends r s)
  exact hkept.congr fun _ _ => (or_iff_right not_false).symm

theorem isAccepted_eq_false_iff {s : String} : isAccepted s = false ↔ Refuses s := by
  have hfailed : (matchScript s.toList).1 = .failed ↔ Refuses s := failed_iff_comes
  have hends : (matchScript s.toList).1 ≠ .exhausted := matching_ends .script s.toList
  rw [← hfailed]
  unfold isAccepted
  cases hv : (matchScript s.toList).1 with
  | matched c ns => exact iff_of_false (by simp) (by simp)
  | failed => exact iff_of_true rfl rfl
  | exhausted => exact absurd hv hends

theorem exists_of_isAccepted {s : String} (hs : isAccepted s = true) : ∃ c ns,
    Grammar.script.Comes .loose (.rule .script) (Cursor.start s.toList) (some (c, ns)) := by
  unfold isAccepted at hs
  split at hs
  · next c ns hv => exact ⟨c, ns, matched_iff_comes.1 hv⟩
  · cases hs

/-- What counts as a failure lies in the text. -/
theorem MissedIn.le_length {s : String} {r : Rule} {o : Nat} (h : MissedIn s r o) :
    o ≤ s.toList.length := by
  obtain ⟨_, c, hcalls, -, -, -, rfl⟩ := h
  exact hcalls.reaches.in_text.1

/-! ### Syntax errors -/

/-- **A refused text has an error at the furthest failure.** -/
theorem Refuses.parse {s : String} (h : Refuses s) : ∃ rules o,
    Program.parse s = .error ⟨.unexpected rules, o⟩ ∧ rules ≠ [] ∧ (rules.map Rule.name).Nodup ∧
      (∀ r ∈ rules, MissedIn s r o) ∧ ∀ r o', MissedIn s r o' → o' ≤ o := by
  have htracks : (matchScript s.toList).2.Tracks (MissedIn s) := run_tracks_missed .script s.toList
  have hfailed : (matchScript s.toList).1 = .failed := failed_iff_comes.2 h
  -- the rule for the whole text failed at least
  have hscript : MissedIn s .script 0 := by
    refine Grammar.RuleSet.missed_rule.2 (.inl ⟨rfl, rfl, ?_, by decide, h⟩)
    decide
  rcases hm : matchScript s.toList with ⟨v, a⟩
  rw [hm] at htracks hfailed
  obtain rfl : v = .failed := hfailed
  refine ⟨expectedRules a.rules, a.offset, ?_, ?_, expectedRules_names_nodup _, ?_, htracks.furthest⟩
  · unfold Program.parse
    rw [hm]
  · obtain ⟨r, hr⟩ := List.exists_mem_of_ne_nil _ (htracks.kept _ _ hscript)
    exact List.ne_nil_of_mem (mem_expectedRules.2 hr)
  · exact fun r hr => htracks.failed r (mem_expectedRules.1 hr)

/-- **An accepted text has an error where a construct stands that is at fault.** -/
theorem shows_of_parse {s : String} {c : Cursor} {ns : List (Node Rule)} {f : SyntaxFault}
    (h : Grammar.script.Comes .loose (.rule .script) (Cursor.start s.toList) (some (c, ns)))
    (hf : Program.parse s = .error f) : ∃ tree n, ns = [tree] ∧ f.cause.ShowsAt tree n ∧
      f.offset = n.offset ∧ f.offset ≤ s.toList.length ∧ n.chars <+: s.toList.drop f.offset := by
  have hmatched : (matchScript s.toList).1 = .matched c ns := matched_iff_comes.2 h
  have hsound : f.cause ∈ SyntaxCause.ofTrees := by
    have haccepted : isAccepted s = true := by
      unfold isAccepted
      rw [hmatched]
    exact sound_of_accepted haccepted hf
  obtain ⟨tree, rfl, -⟩ : Sole (Means .script) ns := script_means.shapes h (by decide)
  have hfaults : FaultsIn tree (Except.error f : Built Program) := by
    rcases hm : matchScript s.toList with ⟨v, a⟩
    obtain rfl : v = .matched c [tree] := by rw [← hmatched, hm]
    unfold Program.parse at hf
    rw [hm] at hf
    rw [← hf]
    exact (ofNodes_children_faultsIn tree).map
  rcases hfaults with hmalformed | ⟨n, hshows, ho⟩
  · -- the nodes of a match are never malformed
    rw [hmalformed] at hsound
    exact absurd hsound (by decide)
  · obtain ⟨start, hreach, hstart, hchars⟩ := h.node_reached List.mem_cons_self hshows.inside
    obtain ⟨hle, hrest⟩ := hreach.in_text
    rw [← hstart, ← ho] at hle hrest
    exact ⟨tree, n, rfl, hshows, ho, hle, hrest ▸ hchars⟩

/-- **A syntax error shows in the text.** -/
theorem offset_le_of_parse {s : String} {f : SyntaxFault} (hf : Program.parse s = .error f) :
    f.offset ≤ s.toList.length := by
  cases hs : isAccepted s with
  | false =>
    obtain ⟨rules, o, hparse, hne, -, hmissed, -⟩ := (isAccepted_eq_false_iff.1 hs).parse
    cases hparse.symm.trans hf
    obtain ⟨r, hr⟩ := List.exists_mem_of_ne_nil _ hne
    exact (hmissed r hr).le_length
  | true =>
    obtain ⟨c, ns, hcomes⟩ := exists_of_isAccepted hs
    obtain ⟨_, _, -, -, -, hle, -⟩ := shows_of_parse hcomes hf
    exact hle

/-- **A syntax error points at the furthest failure, or at a construct that is at fault.** A text that
the grammar refuses has an error that names at least one rule and none twice. Each of them failed at the
place of the error, and no call of a rule that is not silent, outside a token, failed behind it. A text
that the grammar accepts has an error only where a construct of its tree begins that is at fault.

All these places lie in the text, its end included, and the message tells them by line and column. -/
theorem Program.syntax_error_place (s : String) :
    (Refuses s → ∃ rules o, Program.parse s = .error ⟨.unexpected rules, o⟩ ∧
      rules ≠ [] ∧ (rules.map Rule.name).Nodup ∧ (∀ r ∈ rules, MissedIn s r o) ∧
      ∀ r o', MissedIn s r o' → o' ≤ o) ∧
    (∀ c ns f, Grammar.script.Comes .loose (.rule .script) (Cursor.start s.toList) (some (c, ns)) →
      Program.parse s = .error f → ∃ tree n, ns = [tree] ∧ f.cause.ShowsAt tree n ∧
        f.offset = n.offset ∧ n.chars <+: s.toList.drop f.offset) ∧
    ∀ f, Program.parse s = .error f → f.offset ≤ s.toList.length ∧
      ∃ line column, line = (s.toList.take f.offset).count '\n' + 1 ∧
        column = ((s.toList.take f.offset).reverse.takeWhile (· != '\n')).length + 1 ∧
        ∀ script, Program.compile script s = .error (.badSyntax
          (f.cause.message ++ s!" at line {line}, column {column}" ++ " in " ++ script)) := by
  refine ⟨Refuses.parse, fun c ns f hcomes hf => ?_, fun f hf => ⟨offset_le_of_parse hf, ?_⟩⟩
  · obtain ⟨tree, n, hns, hshows, ho, -, hchars⟩ := shows_of_parse hcomes hf
    exact ⟨tree, n, hns, hshows, ho, hchars⟩
  · obtain ⟨hline, hcolumn⟩ := Position.ofOffset_eq s.toList f.offset
    refine ⟨_, _, hline, hcolumn, fun script => ?_⟩
    unfold Program.compile
    rw [hf]
    rfl

/-- Why a text is no script, and where. -/
def Program.fault? (s : String) : Option (SyntaxCause × Nat) :=
  match Program.parse s with
  | .ok _ => none
  | .error f => some (f.cause, f.offset)

theorem Program.parse_of_fault? {s : String} {cause : SyntaxCause} {o : Nat}
    (h : fault? s = some (cause, o)) : Program.parse s = .error ⟨cause, o⟩ := by
  unfold fault? at h
  cases hparse : Program.parse s with
  | ok p =>
    rw [hparse] at h
    cases h
  | error f =>
    rw [hparse] at h
    cases h
    rfl

/-- A text with no name behind `let`, and one that assigns to a number on its second line. -/
theorem Program.syntax_error_place_on_line_two :
    (∃ rules o, Program.parse "a;\n let = 3" = .error ⟨.unexpected rules, o⟩ ∧ rules ≠ [] ∧
      (∀ r ∈ rules, MissedIn "a;\n let = 3" r o) ∧
      ∀ r o', MissedIn "a;\n let = 3" r o' → o' ≤ o) ∧
    Program.compile "m" "a;\n let = 3" =
      .error (.badSyntax "expected one of [identifier] at line 2, column 6 in m") ∧
    (∃ tree n, SyntaxCause.ShowsAt tree .invalidTarget n ∧ n.offset = 3 ∧
      n.chars <+: "1 = 2);".toList) ∧
    Program.compile "m" "f(\n1 = 2);" =
      .error (.badSyntax "Invalid assignment target at line 2, column 1 in m") := by
  obtain ⟨refused, -, described⟩ := Program.syntax_error_place "a;\n let = 3"
  obtain ⟨-, built, described'⟩ := Program.syntax_error_place "f(\n1 = 2);"
  have hfault : Program.parse "a;\n let = 3" = .error ⟨.unexpected [.identifier], 8⟩ :=
    Program.parse_of_fault? (by decide +kernel)
  have hfault' : Program.parse "f(\n1 = 2);" = .error ⟨.invalidTarget, 3⟩ :=
    Program.parse_of_fault? (by decide +kernel)
  refine ⟨?_, ?_, ?_, ?_⟩
  · obtain ⟨rules, o, hparse, hne, -, hmissed, hfurthest⟩ :=
      refused (isAccepted_eq_false_iff.1 (by decide +kernel))
    exact ⟨rules, o, hparse, hne, hmissed, hfurthest⟩
  · obtain ⟨-, line, column, hline, hcolumn, hcompile⟩ := described _ hfault
    rw [hcompile "m", hline, hcolumn]
    rfl
  · obtain ⟨c, ns, hcomes⟩ := exists_of_isAccepted (s := "f(\n1 = 2);") (by decide +kernel)
    obtain ⟨tree, n, -, hshows, ho, hchars⟩ := built c ns _ hcomes hfault'
    exact ⟨tree, n, hshows, ho.symm, hchars⟩
  · obtain ⟨-, line, column, hline, hcolumn, hcompile⟩ := described' _ hfault'
    rw [hcompile "m", hline, hcolumn]
    rfl

end ScriptModules
