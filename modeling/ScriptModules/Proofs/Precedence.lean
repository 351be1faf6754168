import ScriptModules.Proofs.Agreement

/-!
# Precedence

A row of operators and operands can be bracketed in many ways, and each `Bracketing` of it is read off
from left to right as the row. One of them is as precedence and associativity ask (`Bracketing.Proper`):
an operator between operands has nothing on its left that binds looser, and nothing on its right that
does not bind tighter; an operator before an operand has just that operand, perhaps behind more operators
of its kind.

The tree of a row has the proper brackets (`RowItem.IsRow.exists_bracketing`), and there are no others
(`Bracketing.eq_of_items`). The main statement, `Expr.ofNode_binary_brackets`, is about the rows that the
grammar finds in a text.
-/

namespace ScriptModules

open Grammar (Node Rule Cursor Attempts)
open Grammar.Pattern

/-! ### Operators between operands -/

/-- The operators in lines, those that bind loosest first. -/
def InfixOp.lines : List (List InfixOp) :=
  [[.logical .or],
    [.logical .and],
    [.binary .strictlyEqual, .binary .strictlyUnequal, .binary .equal, .binary .notEqual],
    [.binary .lessThan, .binary .lessThanEqual, .binary .greaterThan, .binary .greaterThanEqual],
    [.binary .add, .binary .subtract],
    [.binary .multiply, .binary .divide, .binary .remainder]]

/-- Operators bind alike in a line, and tighter from line to line. -/
theorem InfixOp.level_of_lines :
    (∀ op, ∃ line ∈ lines, op ∈ line) ∧
    (∀ line ∈ lines, ∀ a ∈ line, ∀ b ∈ line, a.level = b.level) ∧
    lines.Pairwise fun looser tighter => ∀ a ∈ looser, ∀ b ∈ tighter, a.level < b.level := by
  refine ⟨fun op => ?_, by decide, by decide⟩
  rcases op with (_ | _) | op
  · decide
  · decide
  · cases op <;> decide

/-! ### Rows and brackets -/

/-- **The rows of the grammar:** operators that stand before an operand, the operand, and the same again
behind each operator that stands between operands. -/
inductive RowItem.IsRow : List RowItem → Prop
  | operand (e : Expr) : IsRow [.operand e]
  | before (op : UnaryOp) {items : List RowItem} : IsRow items → IsRow (.before op :: items)
  | between (e : Expr) (op : InfixOp) {items : List RowItem} :
      IsRow items → IsRow (.operand e :: .between op :: items)

/-- Where the brackets of a row stand. Brackets inside an operand are not seen. -/
inductive Bracketing where
  | operand (e : Expr)
  | before (op : UnaryOp) (inner : Bracketing)
  | between (op : InfixOp) (left right : Bracketing)

namespace Bracketing

/-- The row, read off from left to right. -/
def items : Bracketing → List RowItem
  | operand e => [.operand e]
  | before op t => .before op :: t.items
  | between op l r => l.items ++ .between op :: r.items

/-- The expression with these brackets. -/
def toExpr : Bracketing → Expr
  | operand e => e
  | before op t => .unary op t.toExpr
  | between op l r => op.apply l.toExpr r.toExpr

/-- How tightly the outermost operator binds, if it stands between operands. -/
def level? : Bracketing → Option Nat
  | between op _ _ => some op.level
  | _ => none

/-- **The brackets stand as precedence and associativity ask.** -/
def Proper : Bracketing → Prop
  | operand _ => True
  | before _ t => t.level? = none ∧ t.Proper
  | between op l r => l.Proper ∧ r.Proper ∧ (∀ n ∈ l.level?, op.level ≤ n) ∧
      ∀ n ∈ r.level?, op.level < n

/-- An operand, perhaps with operators before it. -/
def Bare (t : Bracketing) : Prop := t.level? = none ∧ t.Proper

/-- What stands before the first operator between operands. -/
def first : Bracketing → Bracketing
  | between _ l _ => l.first
  | t => t

/-- The operators between operands, each with what follows it. -/
def rest : Bracketing → List (InfixOp × Bracketing)
  | between op l r => l.rest ++ (op, r.first) :: r.rest
  | _ => []

/-- The pieces of a row that operators and what follows them are. -/
def spell (rest : List (InfixOp × Bracketing)) : List RowItem :=
  rest.flatMap fun p => .between p.1 :: p.2.items

/-- Add one more operator and operand on the right. -/
def append : Bracketing → InfixOp → Bracketing → Bracketing
  | between o l r, op, x =>
    if o.level < op.level then between o l (r.append op x) else between op (between o l r) x
  | t, op, x => between op t x

/-- The brackets of an operand followed by operators and operands. -/
def ofRow (first : Bracketing) (rest : List (InfixOp × Bracketing)) : Bracketing :=
  rest.foldl (fun t p => t.append p.1 p.2) first

/-- The groups that the operators between operands make. -/
def grouping : Bracketing → Grouping
  | between op l r => .node op l.grouping r.grouping
  | t => .operand t.toExpr

variable {t x : Bracketing} {op : InfixOp} {rest : List (InfixOp × Bracketing)}

/-! ### Adding on the right -/

theorem grouping_of_bare (hx : x.Bare) : x.grouping = .operand x.toExpr := by
  cases x with
  | between o l r => exact absurd hx.1 nofun
  | _ => rfl

theorem toExpr_grouping (t : Bracketing) : t.grouping.toExpr = t.toExpr := by
  induction t with
  | between op l r ihl ihr => rw [grouping, Grouping.toExpr, ihl, ihr, toExpr]
  | _ => rfl

theorem grouping_append (t : Bracketing) (op : InfixOp) (hx : x.Bare) :
    (t.append op x).grouping = t.grouping.append op x.toExpr := by
  induction t with
  | between o l r _ ihr =>
    simp only [append, grouping, Grouping.append]
    split
    · rw [grouping, ihr]
    · rw [grouping, grouping, grouping_of_bare hx]
  | _ => simp only [append, grouping, Grouping.append, grouping_of_bare hx]

theorem items_append (t : Bracketing) (op : InfixOp) (x : Bracketing) :
    (t.append op x).items = t.items ++ .between op :: x.items := by
  induction t with
  | between o l r _ ihr =>
    unfold append
    split
    · rw [items, ihr, items, List.append_assoc, List.cons_append]
    · rfl
  | _ => rfl

/-- The new operator is outermost, or the old one still is. -/
theorem level?_append (t : Bracketing) (op : InfixOp) (x : Bracketing) :
    ∀ n ∈ (t.append op x).level?, n = op.level ∨ n ∈ t.level? := by
  intro n hn
  cases t with
  | between o l r =>
    unfold append at hn
    split at hn
    · exact .inr hn
    · exact .inl (Option.mem_some.1 hn).symm
  | _ => exact .inl (Option.mem_some.1 hn).symm

/-- An operator descends past those that bind looser, so the brackets stay proper. -/
theorem append_proper (ht : t.Proper) (op : InfixOp) (hx : x.Bare) : (t.append op x).Proper := by
  have hright : ∀ n ∈ x.level?, op.level < n := by
    rw [hx.1]
    exact fun n hn => absurd hn (Option.not_mem_none n)
  induction t with
  | between o l r _ ihr =>
    obtain ⟨hl, hr, hleft, hlt⟩ := ht
    unfold append
    split
    · next hdescends =>
      -- the right operand takes it up, and what is outermost there still binds tighter than `o`
      refine ⟨hl, ihr hr, hleft, fun n hn => ?_⟩
      rcases level?_append r op x n hn with rfl | hn
      · exact hdescends
      · exact hlt n hn
    · next hstays =>
      -- all there was becomes the left operand, with `o` outermost
      refine ⟨⟨hl, hr, hleft, hlt⟩, hx.2, fun n hn => ?_, hright⟩
      rw [← Option.mem_some.1 hn]
      exact Nat.le_of_not_lt hstays
  | operand e => exact ⟨trivial, hx.2, fun n hn => absurd hn (Option.not_mem_none n), hright⟩
  | before o t _ => exact ⟨ht, hx.2, fun n hn => absurd hn (Option.not_mem_none n), hright⟩

theorem ofRow_proper (ht : t.Proper) (hrest : ∀ p ∈ rest, p.2.Bare) : (ofRow t rest).Proper := by
  induction rest generalizing t with
  | nil => exact ht
  | cons p rest ih =>
    obtain ⟨hp, hrest⟩ := List.forall_mem_cons.1 hrest
    exact ih (append_proper ht p.1 hp) hrest

theorem items_ofRow (t : Bracketing) (rest : List (InfixOp × Bracketing)) :
    (ofRow t rest).items = t.items ++ spell rest := by
  induction rest generalizing t with
  | nil => exact (List.append_nil t.items).symm
  | cons p rest ih =>
    calc (ofRow (t.append p.1 p.2) rest).items
        = (t.append p.1 p.2).items ++ spell rest := ih _
      _ = (t.items ++ .between p.1 :: p.2.items) ++ spell rest := by rw [items_append]
      _ = t.items ++ spell (p :: rest) := by
        rw [List.append_assoc, spell, spell, List.flatMap_cons]

theorem grouping_ofRow (t : Bracketing) (hrest : ∀ p ∈ rest, p.2.Bare) :
    (ofRow t rest).grouping =
      (rest.map fun p => (p.1, p.2.toExpr)).foldl (fun g p => g.append p.1 p.2) t.grouping := by
  induction rest generalizing t with
  | nil => rfl
  | cons p rest ih =>
    obtain ⟨hp, hrest⟩ := List.forall_mem_cons.1 hrest
    exact (ih (t.append p.1 p.2) hrest).trans (by rw [grouping_append t p.1 hp]; rfl)

/-! ### Only one way is proper -/

theorem first_bare (ht : t.Proper) : t.first.Bare := by
  induction t with
  | operand e => exact ⟨rfl, trivial⟩
  | before op t _ => exact ⟨rfl, ht⟩
  | between op l r ihl _ => exact ihl ht.1

theorem rest_bare (ht : t.Proper) : ∀ p ∈ t.rest, p.2.Bare := by
  induction t with
  | operand e | before op t _ => exact List.forall_mem_nil _
  | between op l r ihl ihr =>
    obtain ⟨hl, hr, -⟩ := ht
    intro p hp
    rcases List.mem_append.1 hp with hp | hp
    · exact ihl hl p hp
    · rcases List.mem_cons.1 hp with rfl | hp
      · exact first_bare hr
      · exact ihr hr p hp

theorem items_eq (t : Bracketing) : t.items = t.first.items ++ spell t.rest := by
  induction t with
  | operand e | before op t _ => exact (List.append_nil _).symm
  | between op l r ihl ihr =>
    rw [items, ihl, ihr, first, rest]
    simp [spell]

/-- All operators bind at least as tightly as the outermost. -/
theorem level_lt_of_mem_rest (ht : t.Proper) {m : Nat} (hm : ∀ n ∈ t.level?, m < n) :
    ∀ p ∈ t.rest, m < p.1.level := by
  induction t with
  | operand e | before op t _ => exact List.forall_mem_nil _
  | between op l r ihl ihr =>
    obtain ⟨hl, hr, hleft, hright⟩ := ht
    have hop : m < op.level := hm op.level rfl
    intro p hp
    rcases List.mem_append.1 hp with hp | hp
    · exact ihl hl (fun n hn => Nat.lt_of_lt_of_le hop (hleft n hn)) p hp
    · rcases List.mem_cons.1 hp with rfl | hp
      · exact hop
      · exact ihr hr (fun n hn => Nat.lt_trans hop (hright n hn)) p hp

/-- Operators that bind tighter go into the right operand. -/
theorem ofRow_between (op : InfixOp) (l r : Bracketing)
    (hrest : ∀ p ∈ rest, op.level < p.1.level) :
    ofRow (between op l r) rest = between op l (ofRow r rest) := by
  induction rest generalizing r with
  | nil => rfl
  | cons p rest ih =>
    obtain ⟨hp, hrest⟩ := List.forall_mem_cons.1 hrest
    have happend : (between op l r).append p.1 p.2 = between op l (r.append p.1 p.2) := if_pos hp
    calc ofRow (between op l r) (p :: rest)
        = ofRow (between op l (r.append p.1 p.2)) rest := by rw [← happend]; rfl
      _ = between op l (ofRow (r.append p.1 p.2) rest) := ih _ hrest

/-- An operator takes all that binds at least as tightly for its left operand. -/
theorem append_of_le (ht : ∀ n ∈ t.level?, op.level ≤ n) : t.append op x = between op t x := by
  cases t with
  | between o l r => exact if_neg (Nat.not_lt.2 (ht o.level rfl))
  | _ => rfl

/-- **Proper brackets are those that the row gets.** -/
theorem ofRow_first_rest (ht : t.Proper) : ofRow t.first t.rest = t := by
  induction t with
  | operand e | before op t _ => rfl
  | between op l r ihl ihr =>
    obtain ⟨hl, hr, hleft, hright⟩ := ht
    calc ofRow (between op l r).first (between op l r).rest
        = ofRow ((ofRow l.first l.rest).append op r.first) r.rest := by
          rw [first, rest, ofRow, List.foldl_append]
          rfl
      _ = ofRow (between op l r.first) r.rest := by rw [ihl hl, append_of_le hleft]
      _ = between op l (ofRow r.first r.rest) :=
          ofRow_between op l r.first (level_lt_of_mem_rest hr hright)
      _ = between op l r := by rw [ihr hr]

/-- What stands before the first operator between operands can be told from the row. -/
theorem bare_unique {x y : Bracketing} (hx : x.Bare) (hy : y.Bare)
    {rest rest' : List (InfixOp × Bracketing)}
    (h : x.items ++ spell rest = y.items ++ spell rest') : x = y ∧ spell rest = spell rest' := by
  induction x generalizing y with
  | between op l r => exact absurd hx.1 nofun
  | operand e =>
    cases y with
    | between op l r => exact absurd hy.1 nofun
    | before op t => cases h
    | operand e' =>
      obtain ⟨he, hrest⟩ := List.cons.inj h
      exact ⟨congrArg operand (RowItem.operand.inj he), hrest⟩
  | before op t ih =>
    cases y with
    | between op l r => exact absurd hy.1 nofun
    | operand e => cases h
    | before op' t' =>
      obtain ⟨hop, htail⟩ := List.cons.inj h
      obtain ⟨rfl, hrest⟩ := ih hx.2 hy.2 htail
      exact ⟨congrArg (before · t) (RowItem.before.inj hop), hrest⟩

theorem spell_unique {rest rest' : List (InfixOp × Bracketing)} (hrest : ∀ p ∈ rest, p.2.Bare)
    (hrest' : ∀ p ∈ rest', p.2.Bare) (h : spell rest = spell rest') : rest = rest' := by
  induction rest generalizing rest' with
  | nil =>
    cases rest' with
    | nil => rfl
    | cons p' rest' => cases h
  | cons p rest ih =>
    cases rest' with
    | nil => cases h
    | cons p' rest' =>
      obtain ⟨hp, hrest⟩ := List.forall_mem_cons.1 hrest
      obtain ⟨hp', hrest'⟩ := List.forall_mem_cons.1 hrest'
      obtain ⟨hop, h⟩ := List.cons.inj h
      obtain ⟨hsame, h⟩ := bare_unique hp hp' h
      rw [ih hrest hrest' h, Prod.ext (RowItem.between.inj hop) hsame]

/-- **A row has no two proper bracketings.** -/
theorem eq_of_items {t t' : Bracketing} (ht : t.Proper) (ht' : t'.Proper)
    (h : t.items = t'.items) : t = t' := by
  -- the arms can be told from the row, and proper brackets from the arms
  rw [t.items_eq, t'.items_eq] at h
  obtain ⟨hfirst, hspell⟩ := bare_unique (first_bare ht) (first_bare ht') h
  have hrest := spell_unique (rest_bare ht) (rest_bare ht') hspell
  rw [← ofRow_first_rest ht, ← ofRow_first_rest ht', hfirst, hrest]

end Bracketing

/-! ### The tree of a row -/

namespace RowItem

open Bracketing (Bare spell)

/-- A row begins with an operand, and what follows are operators and operands. -/
theorem IsRow.exists_arms {items : List RowItem} (h : IsRow items) :
    ∃ (t : Bracketing) (rest : List (InfixOp × Bracketing)), t.Bare ∧ (∀ p ∈ rest, p.2.Bare) ∧
      items = t.items ++ spell rest ∧
      Row.ofItems items = some ⟨some t.toExpr, rest.map fun p => (p.1, p.2.toExpr)⟩ := by
  induction h with
  | operand e =>
    exact ⟨.operand e, [], ⟨rfl, trivial⟩, List.forall_mem_nil _, rfl, rfl⟩
  | before op _ ih =>
    obtain ⟨t, rest, ht, hrest, hitems, hrow⟩ := ih
    refine ⟨.before op t, rest, ⟨rfl, ht⟩, hrest, congrArg (.before op :: ·) hitems, ?_⟩
    rw [Row.ofItems, hrow]
    rfl
  | between e op _ ih =>
    obtain ⟨t, rest, ht, hrest, hitems, hrow⟩ := ih
    refine ⟨.operand e, (op, t) :: rest, ⟨rfl, trivial⟩, List.forall_mem_cons.2 ⟨ht, hrest⟩, ?_, ?_⟩
    · rw [hitems]
      rfl
    · rw [Row.ofItems, Row.ofItems, hrow]
      rfl

/-- **The tree of a row has proper brackets.** -/
theorem IsRow.exists_bracketing {items : List RowItem} (h : IsRow items) :
    ∃ t : Bracketing, t.Proper ∧ t.items = items ∧ toExpr? items = some t.toExpr := by
  obtain ⟨t, rest, ht, hrest, rfl, hrow⟩ := h.exists_arms
  refine ⟨.ofRow t rest, Bracketing.ofRow_proper ht.2 hrest, Bracketing.items_ofRow t rest, ?_⟩
  have hgroups : (Bracketing.ofRow t rest).grouping =
      .ofRow t.toExpr (rest.map fun p => (p.1, p.2.toExpr)) := by
    rw [Bracketing.grouping_ofRow t hrest, Bracketing.grouping_of_bare ht]
    rfl
  rw [toExpr?, hrow, ← Bracketing.toExpr_grouping (.ofRow t rest), hgroups]

end RowItem

/-! ### Rows in a text -/

/-- The piece of a row that a node is. -/
def RowItem.OfNode (n : Node Rule) : RowItem → Prop
  | .before op => UnaryOp.ofRule? n.rule = some op
  | .between op => InfixOp.ofRule? n.rule = some op
  | .operand e => n.rule = .postfix_ ∧ Expr.ofNode n = .ok e

/-- One of the nodes is an operand that has no tree, but the fault. -/
def FaultyOperand (ns : List (Node Rule)) (f : SyntaxFault) : Prop :=
  ∃ n ∈ ns, n.rule = .postfix_ ∧ Expr.ofNode n = .error f

/-- **The nodes are a part of a row** that is like this, unless an operand is faulty. -/
def RowOf (P : List RowItem → Prop) (ns : List (Node Rule)) : Prop :=
  (∃ f, RowItem.ofNodes ns = .error f ∧ FaultyOperand ns f) ∨
    ∃ items, RowItem.ofNodes ns = .ok items ∧ List.Forall₂ RowItem.OfNode ns items ∧ P items

/-- What may follow an operand in a row. -/
def RowItem.FollowsOperand (items : List RowItem) : Prop :=
  items = [] ∨ ∃ op rest, items = .between op :: rest ∧ IsRow rest

namespace RowOf

open RowItem (IsRow FollowsOperand)

variable {P Q : List RowItem → Prop} {n : Node Rule} {ns : List (Node Rule)}

/-- One more piece that is no operand. -/
theorem cons (item : RowItem) (h : RowOf P ns)
    (hn : RowItem.ofNodes (n :: ns) = (RowItem.ofNodes ns).map (item :: ·)) (hitem : item.OfNode n)
    (hQ : ∀ items, P items → Q (item :: items)) : RowOf Q (n :: ns) := by
  rcases h with ⟨f, hf, m, hm, hfault⟩ | ⟨items, hitems, hall, hP⟩
  · exact .inl ⟨f, by rw [hn, hf]; rfl, m, List.mem_cons_of_mem n hm, hfault⟩
  · exact .inr ⟨item :: items, by rw [hn, hitems]; rfl, .cons hitem hall, hQ items hP⟩

theorem before (h : RowOf IsRow ns) (hn : Means .prefixOp n) : RowOf IsRow (n :: ns) := by
  obtain ⟨hrule, op, hop⟩ := hn
  refine h.cons (.before op) ?_ hop fun items hitems => .before op hitems
  rw [RowItem.ofNodes.eq_3 n ns (Node.ne_mk hrule), hop]
  cases RowItem.ofNodes ns <;> rfl

theorem between (h : RowOf IsRow ns) (hn : Means .infixOp n) : RowOf FollowsOperand (n :: ns) := by
  obtain ⟨hrule, hnone, op, hop⟩ := hn
  refine h.cons (.between op) ?_ hop fun items hitems => .inr ⟨op, items, rfl, hitems⟩
  rw [RowItem.ofNodes.eq_3 n ns (Node.ne_mk hrule), hnone, hop]
  cases RowItem.ofNodes ns <;> rfl

theorem operand (h : RowOf FollowsOperand ns) (hn : n.rule = .postfix_) : RowOf IsRow (n :: ns) := by
  obtain ⟨start, stop, parts, rfl⟩ := Node.exists_mk hn
  cases he : Expr.ofNode (.mk .postfix_ start stop parts) with
  | error f =>
    refine .inl ⟨f, ?_, _, List.mem_cons_self, rfl, he⟩
    rw [RowItem.ofNodes, he]
    rfl
  | ok e =>
    refine h.cons (.operand e) ?_ ⟨rfl, he⟩ fun items hitems => ?_
    · rw [RowItem.ofNodes, he]
      cases RowItem.ofNodes ns <;> rfl
    · rcases hitems with rfl | ⟨op, rest, rfl, hrest⟩
      · exact .operand e
      · exact .between e op hrest

/-- Operators before an operand, the operand, and what follows. -/
theorem group {group : List (Node Rule)} (h : RowOf FollowsOperand ns)
    (hgroup : (next (many (rule .prefixOp)) (rule .postfix_)).Shapes Means group) :
    RowOf IsRow (group ++ ns) := by
  obtain ⟨ops, _, rfl, hops, n, rfl, hn⟩ := shapes_next.1 hgroup
  have hbefore := shapes_many_rule hops
  clear hops hgroup
  induction ops with
  | nil => exact h.operand hn.1
  | cons m ops ih =>
    obtain ⟨hm, hbefore⟩ := List.forall_mem_cons.1 hbefore
    exact (ih hbefore).before hm

theorem of_parts {parts : List (List (Node Rule))}
    (h : ∀ part ∈ parts, (seq (rule .infixOp) [many (rule .prefixOp), rule .postfix_]).Shapes Means
      part) : RowOf FollowsOperand parts.flatten := by
  induction parts with
  | nil => exact .inr ⟨[], rfl, .nil, .inl rfl⟩
  | cons part parts ih =>
    obtain ⟨hpart, hparts⟩ := List.forall_mem_cons.1 h
    obtain ⟨n, group, rfl, hn, hgroup⟩ := shapes_rule_next.1 hpart
    exact ((ih hparts).group hgroup).between hn

/-- **What the rule for rows leaves is a row.** -/
theorem of_shapes (h : (Rule.body .binary).Shapes Means ns) : RowOf IsRow ns := by
  obtain ⟨ops, rest, rfl, hops, h⟩ := shapes_next.1 h
  obtain ⟨n, rest, rfl, hn, h⟩ := shapes_rule_next.1 h
  obtain ⟨parts, rfl, hparts⟩ := shapes_many h
  have hgroup : (next (many (rule .prefixOp)) (rule .postfix_)).Shapes Means (ops ++ [n]) :=
    shapes_next.2 ⟨ops, [n], rfl, hops, n, rfl, hn⟩
  have hrow := (of_parts hparts).group hgroup
  rwa [List.append_assoc] at hrow

end RowOf

/-- The node that a match of the rule for rows leaves. -/
theorem exists_row_of_matched {k : Nat} {c c' : Cursor} {a : Attempts Rule} {ns : List (Node Rule)}
    (h : (Grammar.script.run k .loose (.rule .binary) c a).1 = .matched c' ns) :
    ∃ row, ns = [.mk .binary c c'.offset row] ∧ RowOf RowItem.IsRow row := by
  have hagrees := (Grammar.script.run_agrees k).1 .loose (.rule .binary) c a
  rw [h] at hagrees
  have hcomes : Grammar.script.Comes .loose (.rule .binary) c (some (c', ns)) := hagrees
  cases hcomes with
  | rule hbody => exact ⟨_, rfl, .of_shapes (script_means.shapes hbody (by decide))⟩

/-- **Precedence and associativity.** The operators between operands bind tighter from line to line, and
alike in a line. Every row of operators and operands has a tree, whose brackets read off as the row and
are proper; no other brackets of this row are.

What the rule for rows of the grammar matches, wherever in a text, is such a row. Its pieces are the
nodes one after the other: the operators as they are written, and the trees of the operands. The tree
that is built for it has the proper brackets of the row, unless an operand has no tree. -/
theorem Expr.ofNode_binary_brackets :
    ((∀ op, ∃ line ∈ InfixOp.lines, op ∈ line) ∧
      (∀ line ∈ InfixOp.lines, ∀ a ∈ line, ∀ b ∈ line, a.level = b.level) ∧
      InfixOp.lines.Pairwise fun looser tighter =>
        ∀ a ∈ looser, ∀ b ∈ tighter, a.level < b.level) ∧
    (∀ items, RowItem.IsRow items → ∃ t : Bracketing, RowItem.toExpr? items = some t.toExpr ∧
      t.items = items ∧ t.Proper ∧ ∀ t' : Bracketing, t'.Proper → t'.items = items → t' = t) ∧
    ∀ (k : Nat) (c c' : Cursor) (a : Attempts Rule) (ns : List (Node Rule)),
      (Grammar.script.run k .loose (.rule .binary) c a).1 = .matched c' ns →
        ∃ row, ns = [.mk .binary c c'.offset row] ∧
          ((∃ f, Expr.ofNode (.mk .binary c c'.offset row) = .error f ∧ FaultyOperand row f) ∨
            ∃ t : Bracketing, Expr.ofNode (.mk .binary c c'.offset row) = .ok t.toExpr ∧
              List.Forall₂ RowItem.OfNode row t.items ∧ RowItem.IsRow t.items ∧ t.Proper ∧
              ∀ t' : Bracketing, t'.Proper → t'.items = t.items → t' = t) := by
  refine ⟨InfixOp.level_of_lines, fun items hitems => ?_, fun k c c' a ns hmatched => ?_⟩
  · obtain ⟨t, ht, rfl, htree⟩ := hitems.exists_bracketing
    exact ⟨t, htree, rfl, ht, fun t' ht' hsame => Bracketing.eq_of_items ht' ht hsame⟩
  · obtain ⟨row, rfl, hrow⟩ := exists_row_of_matched hmatched
    refine ⟨row, rfl, ?_⟩
    rcases hrow with ⟨f, hf, hfault⟩ | ⟨items, hitems, hall, hrow⟩
    · refine .inl ⟨f, ?_, hfault⟩
      rw [Expr.ofNode, hf]
      rfl
    · obtain ⟨t, ht, rfl, htree⟩ := hrow.exists_bracketing
      refine .inr ⟨t, ?_, hall, hrow, ht, fun t' ht' hsame => Bracketing.eq_of_items ht' ht hsame⟩
      rw [Expr.ofNode, hitems, Built.ok_bind, htree]
      rfl

/-- A row with operators of four levels and two before operands. -/
def mixedRow : List Char := "!a - b * -c === d - e || f".toList

/-- The brackets of the row: all but the two operators before operands group by level. -/
def mixedBrackets : Bracketing :=
  .between (.logical .or)
    (.between (.binary .strictlyEqual)
      (.between (.binary .subtract) (.before .not (.operand (.name "a")))
        (.between (.binary .multiply) (.operand (.name "b")) (.before .minus (.operand (.name "c")))))
      (.between (.binary .subtract) (.operand (.name "d")) (.operand (.name "e"))))
    (.operand (.name "f"))

/-- Whether one node was matched that has a tree. -/
def Grammar.Verdict.hasTree : Grammar.Verdict Rule → Bool
  | .matched _ [n] => (Expr.ofNode n).isOk
  | _ => false

/-- The row has these brackets, and the text of the row has a tree with proper brackets. -/
theorem brackets_of_mixedRow :
    (∃ t : Bracketing, RowItem.toExpr? mixedBrackets.items = some t.toExpr ∧ t = mixedBrackets) ∧
    ∃ (stop : Cursor) (row : List (Node Rule)),
      (Grammar.script.run (matchFuel mixedRow.length) .loose (.rule .binary) (Cursor.start mixedRow)
        {}).1 = .matched stop [.mk .binary (Cursor.start mixedRow) stop.offset row] ∧
      ∃ t : Bracketing,
        Expr.ofNode (.mk .binary (Cursor.start mixedRow) stop.offset row) = .ok t.toExpr ∧
        List.Forall₂ RowItem.OfNode row t.items ∧ t.Proper := by
  obtain ⟨-, rows, texts⟩ := Expr.ofNode_binary_brackets
  constructor
  · have hrow : RowItem.IsRow mixedBrackets.items :=
      .before _ (.between _ _ (.between _ _ (.before _ (.between _ _ (.between _ _ (.between _ _
        (.operand _)))))))
    have hproper : mixedBrackets.Proper := by
      simp [mixedBrackets, Bracketing.Proper, Bracketing.level?, InfixOp.level]
    obtain ⟨t, htree, -, -, honly⟩ := rows _ hrow
    exact ⟨t, htree, (honly mixedBrackets hproper rfl).symm⟩
  · have hbuilt : (Grammar.script.run (matchFuel mixedRow.length) .loose (.rule .binary)
        (Cursor.start mixedRow) {}).1.hasTree = true := by decide +kernel
    cases hrun : (Grammar.script.run (matchFuel mixedRow.length) .loose (.rule .binary)
        (Cursor.start mixedRow) {}).1 with
    | matched stop ns =>
      obtain ⟨row, rfl, htree⟩ := texts _ _ _ _ _ hrun
      rw [hrun] at hbuilt
      refine ⟨stop, row, rfl, ?_⟩
      rcases htree with ⟨f, hf, -⟩ | ⟨t, ht, hall, -, hproper, -⟩
      · rw [Grammar.Verdict.hasTree, hf] at hbuilt
        cases hbuilt
      · exact ⟨t, ht, hall, hproper⟩
    | failed =>
      rw [hrun] at hbuilt
      cases hbuilt
    | exhausted =>
      rw [hrun] at hbuilt
      cases hbuilt

end ScriptModules
