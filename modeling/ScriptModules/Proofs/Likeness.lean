import ScriptModules.Proofs.Conversions
import ScriptModules.Proofs.ScopeChains
import ScriptModules.Proofs.Twins

/-!
# Worlds that are alike

The same evaluation starts in two worlds (`Starts`). What it makes in one of them corresponds to what it
makes in the other at the same turn (`Ref.Matches`); the worlds may hold anything else besides, which it
does not mention. Two values are alike if they are the same constant or mention corresponding things,
and two worlds are alike if corresponding things are (`World.Alike`). So alike means the same up to the
identity of what was made.

The lemmas follow the kinds of things: references, tables, ordered maps, values, scopes, and what one
step does to worlds that are alike.
-/

namespace ScriptModules

/-- Two worlds in which an evaluation starts, and the bindings that it gets. -/
structure Starts where
  left : World
  right : World
  bindings : Bindings

/-! ### References -/

section

variable {k : Kind} {n n' : Nat} {r r' s s' : Ref k}

/-- The two things were made at the same turn after `n` things in one world and `n'` in the other. -/
def Ref.Matches (n n' : Nat) (r r' : Ref k) : Prop := ∃ i, r.row = n + i ∧ r'.row = n' + i

theorem Ref.Matches.eq_iff (h : Ref.Matches n n' r r') (hs : Ref.Matches n n' s s') :
    r = s ↔ r' = s' := by
  obtain ⟨i, hr, hr'⟩ := h
  obtain ⟨j, hj, hj'⟩ := hs
  obtain ⟨r⟩ := r
  obtain ⟨r'⟩ := r'
  obtain ⟨s⟩ := s
  obtain ⟨s'⟩ := s'
  simp only [Ref.mk.injEq] at hr hr' hj hj' ⊢
  omega

theorem Ref.Matches.beq (h : Ref.Matches n n' r r') (hs : Ref.Matches n n' s s') :
    (r == s) = (r' == s') := by
  rw [Bool.eq_iff_iff, beq_iff_eq, beq_iff_eq]
  exact h.eq_iff hs

theorem Ref.Matches.le_left (h : Ref.Matches n n' r r') : n ≤ r.row := by
  obtain ⟨i, hi, -⟩ := h
  omega

end

/-! ### Tables -/

/-- What was made since in the two tables corresponds, and so does what will be made next. -/
structure Table.Alike {k : Kind} {α : Type} (n n' : Nat) (R : α → α → Prop) (t t' : Table k α) :
    Prop where
  fresh : Ref.Matches n n' t.fresh t'.fresh
  rows : ∀ {r r'}, Ref.Matches n n' r r' → Option.Rel R (t.get? r) (t'.get? r')

namespace Table.Alike

variable {k : Kind} {α : Type} {n n' : Nat} {R : α → α → Prop} {t t' : Table k α}

/-- At the start nothing was made. -/
theorem start : Table.Alike t.size t'.size R t t' where
  fresh := ⟨0, rfl, rfl⟩
  rows := by
    rintro ⟨_⟩ ⟨_⟩ ⟨i, rfl, rfl⟩
    have hleft : t.get? ⟨t.size + i⟩ = none := Array.getElem?_eq_none (Nat.le_add_right _ _)
    have hright : t'.get? ⟨t'.size + i⟩ = none := Array.getElem?_eq_none (Nat.le_add_right _ _)
    rw [hleft, hright]
    exact .none

theorem add (h : Table.Alike n n' R t t') {a a' : α} (ha : R a a') :
    Table.Alike n n' R (t.add a) (t'.add a') where
  fresh := by
    obtain ⟨i, hi, hi'⟩ := h.fresh
    have hi : t.size = n + i := hi
    have hi' : t'.size = n' + i := hi'
    refine ⟨i + 1, ?_, ?_⟩
    · show (t.add a).size = _
      rw [Table.size_add]
      omega
    · show (t'.add a').size = _
      rw [Table.size_add]
      omega
  rows {r r'} hr := by
    rw [Table.get?_add, Table.get?_add]
    -- the two new things correspond to each other and to nothing else
    by_cases hfresh : r = t.fresh
    · rw [if_pos hfresh, if_pos ((hr.eq_iff h.fresh).mp hfresh)]
      exact .some ha
    · rw [if_neg hfresh, if_neg fun heq => hfresh ((hr.eq_iff h.fresh).mpr heq)]
      exact h.rows hr

/-- Corresponding things change alike. -/
theorem update (h : Table.Alike n n' R t t') {i i' : Ref k} (hi : Ref.Matches n n' i i')
    {f g : α → α} (hfg : ∀ a a', R a a' → R (f a) (g a')) :
    Table.Alike n n' R (t.update i f) (t'.update i' g) where
  fresh := by
    obtain ⟨j, hj, hj'⟩ := h.fresh
    exact ⟨j, (Table.size_update t i f).trans hj, (Table.size_update t' i' g).trans hj'⟩
  rows {r r'} hr := by
    rw [Table.get?_update, Table.get?_update]
    have hrel := h.rows hr
    -- the first thing is the changed one if and only if the second is
    by_cases heq : i = r
    · rw [if_pos heq, if_pos ((hi.eq_iff hr).mp heq)]
      generalize t.get? r = x at hrel
      generalize t'.get? r' = x' at hrel
      cases hrel with
      | none => exact .none
      | some ha => exact .some (hfg _ _ ha)
    · rw [if_neg heq, if_neg fun heq' => heq ((hi.eq_iff hr).mpr heq')]
      exact hrel

end Table.Alike

/-! ### Ordered maps -/

namespace OrderedMap

variable {α : Type} {R : α → α → Prop}

/-- The same names in the same order, with related values. -/
def Alike (R : α → α → Prop) (m m' : OrderedMap α) : Prop :=
  List.Forall₂ (fun e e' => e.1 = e'.1 ∧ R e.2 e'.2) m.entries m'.entries

theorem Alike.get? {m m' : OrderedMap α} (h : Alike R m m') (name : String) :
    Option.Rel R (m.get? name) (m'.get? name) := by
  obtain ⟨l⟩ := m
  obtain ⟨l'⟩ := m'
  replace h : List.Forall₂ (fun e e' => e.1 = e'.1 ∧ R e.2 e'.2) l l' := h
  show Option.Rel R (find? name l) (find? name l')
  induction h with
  | nil => exact .none
  | @cons e e' _ _ he _ ih =>
    obtain ⟨x, a⟩ := e
    obtain ⟨x', a'⟩ := e'
    obtain ⟨rfl, ha⟩ := he
    unfold find?
    split
    · exact .some ha
    · exact ih

theorem Alike.insert {m m' : OrderedMap α} (h : Alike R m m') (name : String) {a a' : α}
    (ha : R a a') : Alike R (m.insert name a) (m'.insert name a') := by
  obtain ⟨l⟩ := m
  obtain ⟨l'⟩ := m'
  replace h : List.Forall₂ (fun e e' => e.1 = e'.1 ∧ R e.2 e'.2) l l' := h
  show List.Forall₂ _ (put name a l) (put name a' l')
  induction h with
  | nil => exact .cons ⟨rfl, ha⟩ .nil
  | @cons e e' _ _ he hrest ih =>
    obtain ⟨x, b⟩ := e
    obtain ⟨x', b'⟩ := e'
    obtain ⟨rfl, hb⟩ := he
    unfold put
    split
    · exact .cons ⟨rfl, ha⟩ hrest
    · exact .cons ⟨rfl, hb⟩ ih

theorem Alike.ofList {l l' : List (String × α)}
    (h : List.Forall₂ (fun e e' => e.1 = e'.1 ∧ R e.2 e'.2) l l') :
    Alike R (ofList l) (ofList l') := by
  have hfold : ∀ m m' : OrderedMap α, Alike R m m' →
      Alike R (l.foldl (fun m e => m.insert e.1 e.2) m) (l'.foldl (fun m e => m.insert e.1 e.2) m') := by
    induction h with
    | nil => exact fun _ _ => id
    | @cons e e' _ _ he _ ih =>
      intro m m' hm
      obtain ⟨x, a⟩ := e
      obtain ⟨x', a'⟩ := e'
      obtain ⟨rfl, ha⟩ := he
      exact ih _ _ (hm.insert x ha)
  exact hfold _ _ .nil

end OrderedMap

/-! ### Values and what holds them -/

variable (p : Starts)

/-- **The values are the same up to the identity of what was made.** -/
inductive Value.Alike : Value → Value → Prop
  | undefined : Alike .undefined .undefined
  | null : Alike .null .null
  | boolean {b} : Alike (.boolean b) (.boolean b)
  | number {x} : Alike (.number x) (.number x)
  | text {s} : Alike (.text s) (.text s)
  | list {l l'} : Ref.Matches p.left.lists.size p.right.lists.size l l' → Alike (.list l) (.list l')
  | object {o o'} : Ref.Matches p.left.objects.size p.right.objects.size o o' →
      Alike (.object o) (.object o')
  | function {f f'} : Ref.Matches p.left.functions.size p.right.functions.size f f' →
      Alike (.function f) (.function f')

namespace Starts

/-- Corresponding scopes. -/
abbrev Scopes : Ref .scope → Ref .scope → Prop :=
  Ref.Matches p.left.scopes.size p.right.scopes.size

/-- Corresponding heaps: the one that the bindings name, or else those made since. -/
def Heaps (h h' : Ref .heap) : Prop :=
  p.bindings.heap = some h ∧ h' = h ∨
    p.bindings.heap = none ∧ Ref.Matches p.left.heaps.size p.right.heaps.size h h'

end Starts

/-- Functions that do the same. -/
inductive Callable.Alike : Callable → Callable → Prop
  | closure {c scope'} : p.Scopes c.scope scope' →
      Alike (.closure c) (.closure { c with scope := scope' })
  | listMethod {m l l'} : Ref.Matches p.left.lists.size p.right.lists.size l l' →
      Alike (.listMethod m l) (.listMethod m l')
  | textMethod {m s} : Alike (.textMethod m s) (.textMethod m s)

/-- Objects that nobody watches, with the same keys and values that are alike. -/
structure Object.Alike (o o' : Object) : Prop where
  properties : OrderedMap.Alike (Value.Alike p) o.properties o'.properties
  watch : o.watch = none
  watch' : o'.watch = none

structure Variable.Alike (v v' : Variable) : Prop where
  value : Value.Alike p v.value v'.value
  constant : v.constant = v'.constant

/-- Scopes with the same names, in corresponding places. -/
structure Scope.Alike (s s' : Scope) : Prop where
  locals : OrderedMap.Alike (Variable.Alike p) s.locals s'.locals
  parent : Option.Rel p.Scopes s.parent s'.parent
  this : Option.Rel (Value.Alike p) s.this s'.this
  globals : s.globals = s'.globals
  bindings : ∀ b, s.globals = some b → b = p.bindings
  heap : p.Heaps s.heap s'.heap

/-- Heaps on which calls are nested alike, and that track corresponding scopes. -/
structure Heap.Alike (h h' : Heap) : Prop where
  depth : h.depth = h'.depth
  scopes : List.Forall₂ p.Scopes h.scopes h'.scopes

/-- **Worlds that are the same up to the identity of what was made since the start.** -/
structure World.Alike (w w' : World) : Prop where
  lists : Table.Alike p.left.lists.size p.right.lists.size (AllAlike (Value.Alike p)) w.lists w'.lists
  objects : Table.Alike p.left.objects.size p.right.objects.size (Object.Alike p) w.objects w'.objects
  functions : Table.Alike p.left.functions.size p.right.functions.size (Callable.Alike p)
    w.functions w'.functions
  scopes : Table.Alike p.left.scopes.size p.right.scopes.size (Scope.Alike p) w.scopes w'.scopes
  heaps : p.bindings.heap = none → Table.Alike p.left.heaps.size p.right.heaps.size (Heap.Alike p)
    w.heaps w'.heaps
  /-- On a heap that was there before, calls are nested alike. -/
  shared : ∀ h, p.bindings.heap = some h → ∃ x x', w.heaps.get? h = some x ∧
    w'.heaps.get? h = some x' ∧ x.depth = x'.depth
  /-- Lazy cells were at most read. -/
  cells : p.left.CellsSettle w
  cells' : p.left.CellsSettle w'
  /-- A scope lies inside one that was made before. -/
  parents : ∀ s x q, p.left.scopes.size ≤ s.row → w.scopes.get? s = some x → x.parent = some q →
    q.row < s.row
  /-- The scopes of closures exist. -/
  closures : ∀ f c, p.left.functions.size ≤ f.row → w.functions.get? f = some (.closure c) →
    c.scope.row < w.scopes.size

variable {p}

namespace Value.Alike

variable {v v' u u' : Value}

/-- A constant is alike itself. -/
theorem constant (hv : v.isConstant = true) : Value.Alike p v v := by
  cases v with
  | undefined => exact .undefined
  | null => exact .null
  | boolean => exact .boolean
  | number => exact .number
  | text => exact .text
  | _ => cases hv

theorem isTruthy (h : Value.Alike p v v') : v.isTruthy = v'.isTruthy := by
  cases h <;> rfl

theorem isNullish (h : Value.Alike p v v') : v.isNullish = v'.isNullish := by
  cases h <;> rfl

theorem isTextual (h : Value.Alike p v v') : v.isTextual = v'.isTextual := by
  cases h <;> rfl

theorem typeOf (h : Value.Alike p v v') : v.typeOf = v'.typeOf := by
  cases h <;> rfl

/-- Corresponding things are told apart in both worlds, or in none. -/
theorem strictEquals (h : Value.Alike p v v') (hu : Value.Alike p u u') :
    v.strictEquals u = v'.strictEquals u' := by
  cases h with
  | list hl =>
    cases hu with
    | list hm => exact hl.beq hm
    | _ => rfl
  | object hl =>
    cases hu with
    | object hm => exact hl.beq hm
    | _ => rfl
  | function hl =>
    cases hu with
    | function hm => exact hl.beq hm
    | _ => rfl
  | _ => cases hu <;> rfl

theorem any_strictEquals (h : Value.Alike p v v') {vs vs' : List Value}
    (hvs : List.Forall₂ (Value.Alike p) vs vs') :
    vs.any v.strictEquals = vs'.any v'.strictEquals := by
  induction hvs with
  | nil => rfl
  | cons hu _ ih => rw [List.any_cons, List.any_cons, h.strictEquals hu, ih]

end Value.Alike

end ScriptModules
