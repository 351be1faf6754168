import ScriptModules.Proofs.Quiet

/-!
# Chains of scopes

A scope lies inside one that was made before it on the same heap, and the scope of a closure exists:
that is how evaluation makes them (`World.Formed`), and it stays so while scopes change their
variables only (`World.SamePlaces`). In such a world the chain of a scope is the scope itself and then
the chain of its parent (`World.Formed.scopeChain_eq`), so it ends at a scope without a parent, the
root, and all of it lies on one heap. What a name or `this` means follows the same recursion.
-/

namespace ScriptModules

/-- Where a scope lies: inside which scope, and on which heap. -/
def Scope.place (s : Scope) : Option (Ref .scope) × Ref .heap := (s.parent, s.heap)

namespace World

/-- **Scopes and closures as evaluation makes them.** -/
structure Formed (w : World) : Prop where
  parents : ∀ s x p, w.scopes.get? s = some x → x.parent = some p →
    p.row < s.row ∧ ∃ y, w.scopes.get? p = some y ∧ y.heap = x.heap
  closures : ∀ f c, w.functions.get? f = some (.closure c) → c.scope.row < w.scopes.size

/-- Scopes lie where they lay, and no closure was made. -/
structure SamePlaces (w w' : World) : Prop where
  size : w'.scopes.size = w.scopes.size
  places : ∀ s, (w'.scopes.get? s).map Scope.place = (w.scopes.get? s).map Scope.place
  closures : ∀ f c, w'.functions.get? f = some (.closure c) → w.functions.get? f = some (.closure c)

variable {w w' : World} {s : Ref .scope} {x : Scope}

theorem lt_size_of_get? {k : Kind} {α : Type} {t : Table k α} {i : Ref k} {a : α}
    (h : t.get? i = some a) : i.row < t.size :=
  (Array.getElem?_eq_some_iff.mp h).1

theorem SamePlaces.of_get? (h : SamePlaces w w') (hs : w'.scopes.get? s = some x) :
    ∃ y, w.scopes.get? s = some y ∧ y.parent = x.parent ∧ y.heap = x.heap := by
  have hplace := h.places s
  rw [hs] at hplace
  obtain ⟨y, hy, hxy⟩ := Option.map_eq_some_iff.mp hplace.symm
  obtain ⟨hparent, hheap⟩ := Prod.mk.inj hxy
  exact ⟨y, hy, hparent, hheap⟩

theorem SamePlaces.symm_get? (h : SamePlaces w w') (hs : w.scopes.get? s = some x) :
    ∃ y, w'.scopes.get? s = some y ∧ y.parent = x.parent ∧ y.heap = x.heap := by
  have hplace := h.places s
  rw [hs] at hplace
  obtain ⟨y, hy, hxy⟩ := Option.map_eq_some_iff.mp hplace
  obtain ⟨hparent, hheap⟩ := Prod.mk.inj hxy
  exact ⟨y, hy, hparent, hheap⟩

theorem Formed.of_samePlaces (h : w.Formed) (hw : SamePlaces w w') : w'.Formed where
  parents s x p hs hp := by
    obtain ⟨y, hy, hparent, hheap⟩ := hw.of_get? hs
    obtain ⟨hlt, z, hz, hzy⟩ := h.parents s y p hy (hparent.trans hp)
    obtain ⟨z', hz', -, hzz⟩ := hw.symm_get? hz
    exact ⟨hlt, z', hz', (hzz.trans hzy).trans hheap⟩
  closures f c hf := by
    rw [hw.size]
    exact h.closures f c (hw.closures f c hf)

/-- Emptying scopes moves none. -/
theorem emptyScopes_samePlaces (w : World) (scopes : List (Ref .scope)) :
    SamePlaces w (scopes.foldl emptyScope w) where
  size := by
    induction scopes generalizing w with
    | nil => rfl
    | cons s rest ih => exact (ih (w.emptyScope s)).trans (Table.size_update _ _ _)
  places s := by
    rw [get?_emptyScopes]
    split
    · rw [Option.map_map]
      rfl
    · rfl
  closures f c := by
    induction scopes generalizing w with
    | nil => exact id
    | cons s rest ih => exact ih (w.emptyScope s)

theorem release_samePlaces (w : World) (h : Ref .heap) : SamePlaces w (w.release h) :=
  have hempty := w.emptyScopes_samePlaces (w.tracked h)
  ⟨hempty.size, hempty.places, hempty.closures⟩

theorem setVariable_samePlaces (w : World) (s : Ref .scope) (name : String) (v : Variable) :
    SamePlaces w (w.setVariable s name v) where
  size := Table.size_update _ _ _
  places r := by
    rw [setVariable, Table.get?_update]
    split
    · rw [Option.map_map]
      rfl
    · rfl
  closures _ _ := id

theorem empty_formed : World.empty.Formed where
  parents _ _ _ h := absurd h nofun
  closures _ _ h := absurd h nofun

theorem Formed.addHeap (h : w.Formed) : w.addHeap.Formed :=
  h.of_samePlaces ⟨rfl, fun _ => rfl, fun _ _ => id⟩

/-- A new scope lies inside one that exists, on the same heap. -/
theorem Formed.addScope (h : w.Formed) {s : Scope} (hs : ∀ p, s.parent = some p →
    ∃ y, w.scopes.get? p = some y ∧ y.heap = s.heap) : (w.addScope s).Formed where
  parents r x p hr hp := by
    have hr : (w.scopes.add s).get? r = some x := hr
    have keep : ∀ y, w.scopes.get? p = some y → (w.scopes.add s).get? p = some y := fun y =>
      Table.get?_add_of_get?_eq_some s
    rw [Table.get?_add] at hr
    split at hr
    · next hfresh =>
      obtain rfl := Option.some.inj hr
      obtain ⟨y, hy, hheap⟩ := hs p hp
      subst hfresh
      exact ⟨lt_size_of_get? hy, y, keep y hy, hheap⟩
    · obtain ⟨hlt, y, hy, hheap⟩ := h.parents r x p hr hp
      exact ⟨hlt, y, keep y hy, hheap⟩
  closures f c hf := by
    have hsize : (w.addScope s).scopes.size = w.scopes.size + 1 := Table.size_add _ _
    rw [hsize]
    exact Nat.lt_succ_of_lt (h.closures f c hf)

/-- A closure of a scope that exists. -/
theorem Formed.addClosure (h : w.Formed) {c : Closure} (hc : c.scope.row < w.scopes.size) :
    World.Formed { w with functions := w.functions.add (.closure c) } := by
  refine ⟨h.parents, fun f c' hf => ?_⟩
  have hf : (w.functions.add (.closure c)).get? f = some (.closure c') := hf
  rw [Table.get?_add] at hf
  split at hf
  · obtain rfl := Callable.closure.inj (Option.some.inj hf)
    exact hc
  · exact h.closures f c' hf

/-! ### The chain of a scope -/

/-- What the chain mentions is there. -/
theorem get?_of_mem_chainFrom {r : Ref .scope} {y : Scope} {n : Nat}
    (h : (r, y) ∈ w.chainFrom n s) : w.scopes.get? r = some y := by
  induction n generalizing s with
  | zero => cases h
  | succ n ih =>
    rw [chainFrom] at h
    split at h
    · cases h
    · next x hx =>
      rcases List.mem_cons.mp h with heq | hmem
      · obtain ⟨rfl, rfl⟩ := Prod.mk.inj heq
        exact hx
      · split at hmem
        · cases hmem
        · exact ih hmem

/-- Chains are made of scopes only. -/
theorem chainFrom_of_scopes_eq (h : w'.scopes = w.scopes) (n : Nat) (s : Ref .scope) :
    w'.chainFrom n s = w.chainFrom n s := by
  induction n generalizing s with
  | zero => rfl
  | succ n ih =>
    rw [chainFrom, chainFrom, h]
    split
    · rfl
    · congr 1
      split
      · rfl
      · exact ih _

theorem declaration?_of_scopes_eq (h : w'.scopes = w.scopes) (s : Ref .scope) (name : String) :
    w'.declaration? s name = w.declaration? s name := by
  rw [declaration?, scopeChain, chainFrom_of_scopes_eq h, declaration?, scopeChain]

/-- Where parents come before their children, more fuel than the number of the scope makes no
difference. -/
theorem chainFrom_eq {P : Ref .scope → Prop} (hP : ∀ s x p, P s → w.scopes.get? s = some x →
    x.parent = some p → P p ∧ p.row < s.row) {n m : Nat} (hs : P s) (hn : s.row < n)
    (hm : s.row < m) : w.chainFrom n s = w.chainFrom m s := by
  induction n generalizing s m with
  | zero => exact absurd hn (Nat.not_lt_zero _)
  | succ n ih =>
    obtain ⟨m, rfl⟩ := Nat.exists_eq_succ_of_ne_zero (Nat.ne_zero_of_lt hm)
    rw [chainFrom, chainFrom]
    split
    · rfl
    · next x hx =>
      congr 1
      split
      · rfl
      · next p hp =>
        obtain ⟨hparent, hlt⟩ := hP s x p hs hx hp
        exact ih hparent (by omega) (by omega)

namespace Formed

variable (h : w.Formed)

include h

/-- **The chain of a scope is the scope, and then the chain of its parent.** -/
theorem scopeChain_eq (hs : w.scopes.get? s = some x) :
    w.scopeChain s = (s, x) :: (x.parent.elim [] w.scopeChain) := by
  rw [scopeChain, chainFrom, hs]
  show (s, x) :: _ = _
  congr 1
  cases hp : x.parent with
  | none => rfl
  | some p =>
    have hlt := (h.parents s x p hs hp).1
    exact chainFrom_eq (P := fun _ => True)
      (fun s x p _ hx hp => ⟨trivial, (h.parents s x p hx hp).1⟩) trivial hlt (Nat.lt_succ_self _)

/-- What holds of scopes without a parent, and of a scope if it holds of its parent, holds of all
scopes. -/
theorem induction {motive : Ref .scope → Scope → Prop}
    (root : ∀ s x, w.scopes.get? s = some x → x.parent = none → motive s x)
    (inner : ∀ s x p y, w.scopes.get? s = some x → x.parent = some p → w.scopes.get? p = some y →
      y.heap = x.heap → motive p y → motive s x)
    (hs : w.scopes.get? s = some x) : motive s x := by
  obtain ⟨n, hn⟩ : ∃ n, s.row < n := ⟨_, Nat.lt_succ_self _⟩
  induction n generalizing s x with
  | zero => exact absurd hn (Nat.not_lt_zero _)
  | succ n ih =>
    cases hp : x.parent with
    | none => exact root s x hs hp
    | some p =>
      obtain ⟨hlt, y, hy, hheap⟩ := h.parents s x p hs hp
      exact inner s x p y hs hp hy hheap (ih hy (by omega))

/-- **The chain ends at the root,** which has no parent and lies on the same heap. -/
theorem root (hs : w.scopes.get? s = some x) :
    ∃ y, (w.scopeChain s).getLast? = some (w.rootOf s, y) ∧
      w.scopes.get? (w.rootOf s) = some y ∧ y.parent = none ∧ y.heap = x.heap := by
  refine h.induction (motive := fun s x => ∃ y, (w.scopeChain s).getLast? = some (w.rootOf s, y) ∧
    w.scopes.get? (w.rootOf s) = some y ∧ y.parent = none ∧ y.heap = x.heap) ?_ ?_ hs
  · intro s x hs hp
    rw [rootOf, h.scopeChain_eq hs, hp]
    exact ⟨x, rfl, hs, hp, rfl⟩
  · intro s x p y hs hp hy hheap ⟨z, hlast, hz, hparent, hzy⟩
    have hsame : (w.scopeChain s).getLast? = (w.scopeChain p).getLast? := by
      rw [h.scopeChain_eq hs, hp, Option.elim_some, h.scopeChain_eq hy, List.getLast?_cons_cons]
    have hroot : w.rootOf s = w.rootOf p := by rw [rootOf, rootOf, hsame, hlast]
    rw [hsame, hroot]
    exact ⟨z, hlast, hz, hparent, hzy.trans hheap⟩

/-- A scope has the root of its parent. -/
theorem rootOf_eq {p : Ref .scope} (hs : w.scopes.get? s = some x) (hp : x.parent = some p) :
    w.rootOf s = w.rootOf p := by
  obtain ⟨-, y, hy, -⟩ := h.parents s x p hs hp
  obtain ⟨z, hlast, -⟩ := h.root hy
  rw [rootOf, h.scopeChain_eq hs, hp, Option.elim_some, h.scopeChain_eq hy, List.getLast?_cons_cons,
    ← h.scopeChain_eq hy, hlast]

theorem rootOf_of_parent_eq_none (hs : w.scopes.get? s = some x) (hp : x.parent = none) :
    w.rootOf s = s := by
  rw [rootOf, h.scopeChain_eq hs, hp]
  rfl

/-- Roots stay roots while scopes change their variables only. -/
theorem rootOf_of_samePlaces (hw : SamePlaces w w') (hs : w.scopes.get? s = some x) :
    w'.rootOf s = w.rootOf s := by
  have h' := h.of_samePlaces hw
  refine h.induction (motive := fun s _ => w'.rootOf s = w.rootOf s) ?_ ?_ hs
  · intro s x hs hp
    obtain ⟨y, hy, hparent, -⟩ := hw.symm_get? hs
    rw [h.rootOf_of_parent_eq_none hs hp, h'.rootOf_of_parent_eq_none hy (hparent.trans hp)]
  · intro s x p _ hs hp _ _ ih
    obtain ⟨y, hy, hparent, -⟩ := hw.symm_get? hs
    rw [h.rootOf_eq hs hp, h'.rootOf_eq hy (hparent.trans hp), ih]

/-- Where no scope on a heap has a `this`, none is seen from there. -/
theorem thisOf_eq_undefined {r : Ref .heap}
    (hbare : ∀ s x, w.scopes.get? s = some x → x.heap = r → x.this = none)
    (hs : w.scopes.get? s = some x) (hx : x.heap = r) : w.thisOf s = .undefined := by
  have hnone : ((w.scopeChain s).findSome? fun e => e.2.this) = none := by
    refine h.induction (motive := fun s x => x.heap = r →
      ((w.scopeChain s).findSome? fun e => e.2.this) = none) ?_ ?_ hs hx
    · intro s x hs hp hx
      rw [h.scopeChain_eq hs, hp, List.findSome?_cons, hbare s x hs hx]
      rfl
    · intro s x p y hs hp _ hheap ih hx
      rw [h.scopeChain_eq hs, hp, List.findSome?_cons, hbare s x hs hx]
      exact ih (hheap.trans hx)
  rw [thisOf, hnone]
  rfl

/-- **If only root scopes of a heap hold variables, a name means what it means in the root.** -/
theorem declaration?_eq {r : Ref .heap}
    (hbare : ∀ s x, w.scopes.get? s = some x → x.heap = r → x.parent ≠ none → x.locals = .empty)
    (hs : w.scopes.get? s = some x) (hx : x.heap = r) (name : String) :
    w.declaration? s name = w.declaration? (w.rootOf s) name := by
  refine h.induction (motive := fun s x => x.heap = r →
    w.declaration? s name = w.declaration? (w.rootOf s) name) ?_ ?_ hs hx
  · intro s x hs hp _
    rw [h.rootOf_of_parent_eq_none hs hp]
  · intro s x p y hs hp hy hheap ih hx
    have hempty : x.locals = .empty := hbare s x hs hx (by rw [hp]; exact Option.some_ne_none p)
    have hname : x.locals.get? name = none := by
      rw [hempty]
      rfl
    have hskip : w.declaration? s name = w.declaration? p name := by
      rw [declaration?, h.scopeChain_eq hs, hp, List.findSome?_cons]
      simp only [hname]
      rfl
    rw [hskip, h.rootOf_eq hs hp]
    exact ih (hheap.trans hx)

end Formed

end World

end ScriptModules
