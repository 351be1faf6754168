import ScriptModules.World.Scope

/-!
# Heaps

What the operations on a heap leave of it. A release empties the scopes that the heap tracks and no
others (`World.released`), and neither it nor the making of a heap or a scope changes how deep calls
are nested. A call that begins and ends leaves the depth of its heap as it was
(`World.depth_leaveCall`, `World.depth_oneDeeper`).
-/

namespace ScriptModules

namespace World

/-! ### Releasing -/

/-- Emptying scopes changes these and no others. -/
theorem get?_emptyScopes (scopes : List (Ref .scope)) (w : World) (s : Ref .scope) :
    (scopes.foldl emptyScope w).scopes.get? s =
      if s ∈ scopes then (w.scopes.get? s).map Scope.emptied else w.scopes.get? s := by
  induction scopes generalizing w with
  | nil => rfl
  | cons first rest ih =>
    have hfirst : (w.emptyScope first).scopes.get? s =
        if first = s then (w.scopes.get? s).map Scope.emptied else w.scopes.get? s :=
      Table.get?_update w.scopes first s Scope.emptied
    rw [List.foldl_cons, ih, hfirst]
    by_cases hs : first = s
    · subst hs
      rw [if_pos rfl, if_pos List.mem_cons_self]
      split
      · -- what is empty stays as it is
        rw [Option.map_map]
        rfl
      · rfl
    · rw [if_neg hs]
      have hmem : s ∈ first :: rest ↔ s ∈ rest :=
        List.mem_cons.trans (or_iff_right (Ne.symm hs))
      simp only [hmem]

/-- The scopes that a heap tracks. -/
def tracked (w : World) (h : Ref .heap) : List (Ref .scope) := ((w.heaps.get? h).getD {}).scopes

theorem emptyScopes_eq (scopes : List (Ref .scope)) (w : World) :
    ∃ table, scopes.foldl emptyScope w = { w with scopes := table } := by
  induction scopes generalizing w with
  | nil => exact ⟨w.scopes, rfl⟩
  | cons first rest ih =>
    obtain ⟨table, htable⟩ := ih (w.emptyScope first)
    exact ⟨table, htable⟩

theorem heaps_emptyScopes (scopes : List (Ref .scope)) (w : World) :
    (scopes.foldl emptyScope w).heaps = w.heaps := by
  obtain ⟨table, htable⟩ := emptyScopes_eq scopes w
  rw [htable]

/-- A release changes scopes and the heap only. -/
theorem release_eq (w : World) (h : Ref .heap) :
    ∃ table, w.release h = { w with
      scopes := table
      heaps := w.heaps.update h fun x => { x with scopes := [] } } := by
  obtain ⟨table, htable⟩ := emptyScopes_eq (w.tracked h) w
  exact ⟨table, congrArg (fun v : World => { v with
    heaps := v.heaps.update h fun x => { x with scopes := [] } }) htable⟩

/-- **A released heap** tracks no scope, and those that it tracked are empty. -/
theorem released (w : World) (h : Ref .heap) :
    (w.release h).tracked h = [] ∧ ∀ s ∈ w.tracked h,
      (w.release h).scopes.get? s = (w.scopes.get? s).map Scope.emptied := by
  constructor
  · have hheap : (w.release h).heaps.get? h =
        (w.heaps.get? h).map fun x => { x with scopes := [] } := by
      show (((w.tracked h).foldl emptyScope w).heaps.update h _).get? h = _
      rw [heaps_emptyScopes, Table.get?_update, if_pos rfl]
    rw [tracked, hheap]
    cases w.heaps.get? h <;> rfl
  · intro s hs
    show ((w.tracked h).foldl emptyScope w).scopes.get? s = _
    rw [get?_emptyScopes, if_pos hs]

/-! ### How deep calls are nested -/

/-- The world with one call more on a heap. -/
def oneDeeper (w : World) (h : Ref .heap) : World := w.setDepth h (w.depth h + 1)

section

variable (w : World) (h : Ref .heap)

theorem depth_setDepth_of_ne {h x : Ref .heap} (hx : x ≠ h) (n : Nat) :
    (w.setDepth h n).depth x = w.depth x := by
  rw [depth, setDepth, Table.get?_update, if_neg (Ne.symm hx), depth]

/-- The depth of a heap that does not exist is zero, and stays so. -/
theorem depth_setDepth_self (n : Nat) :
    (w.setDepth h n).depth h = n ∨ w.depth h = 0 ∧ (w.setDepth h n).depth h = 0 := by
  rw [depth, setDepth, Table.get?_update, if_pos rfl, depth]
  cases w.heaps.get? h with
  | none => exact .inr ⟨rfl, rfl⟩
  | some x => exact .inl rfl

/-- **A call that ends is one less.** -/
theorem depth_leaveCall : (w.leaveCall h).depth h = w.depth h - 1 := by
  rcases w.depth_setDepth_self h (w.depth h - 1) with hset | ⟨hzero, hset⟩
  · exact hset
  · rw [leaveCall, hset, hzero]

/-- **A call that begins is one more,** on a heap that exists. -/
theorem depth_oneDeeper : (w.oneDeeper h).depth h - 1 = w.depth h := by
  rcases w.depth_setDepth_self h (w.depth h + 1) with hset | ⟨hzero, hset⟩
  · rw [oneDeeper, hset, Nat.add_sub_cancel]
  · rw [oneDeeper, hset, hzero]

theorem peak_setDepth_le (n : Nat) (x : Ref .heap) :
    (w.setDepth h n).peak x ≤ max (w.peak x) n := by
  rw [peak, setDepth, Table.get?_update, peak]
  split
  · cases w.heaps.get? x with
    | none => exact Nat.zero_le _
    | some y => exact Nat.le_refl _
  · exact Nat.le_max_left _ _

/-- A heap that tracks one scope more is nested as deep as before. -/
theorem heap_addScope (s : Scope) (x : Ref .heap) :
    (w.addScope s).depth x = w.depth x ∧ (w.addScope s).peak x = w.peak x := by
  rw [depth, depth, peak, peak, addScope, Table.get?_update]
  split
  · cases w.heaps.get? x <;> exact ⟨rfl, rfl⟩
  · exact ⟨rfl, rfl⟩

theorem heap_addHeap (x : Ref .heap) :
    (w.addHeap.heaps.get? x).getD {} = (w.heaps.get? x).getD {} := by
  rw [addHeap, Table.get?_add]
  split
  · next hx =>
    have hnone : w.heaps.get? x = none := hx ▸ Array.getElem?_size
    rw [hnone]
    rfl
  · rfl

theorem heaps_release :
    (w.release h).heaps = w.heaps.update h fun x => { x with scopes := [] } := by
  obtain ⟨table, htable⟩ := w.release_eq h
  rw [htable]

/-- A heap that is released is nested as deep as before. -/
theorem heap_release (x : Ref .heap) :
    (w.release h).depth x = w.depth x ∧ (w.release h).peak x = w.peak x := by
  rw [depth, depth, peak, peak, heaps_release, Table.get?_update]
  split
  · cases w.heaps.get? x <;> exact ⟨rfl, rfl⟩
  · exact ⟨rfl, rfl⟩

end

/-! ### What heaps track -/

section

variable (w : World)

theorem tracked_setDepth (h : Ref .heap) (n : Nat) (r : Ref .heap) :
    (w.setDepth h n).tracked r = w.tracked r := by
  rw [tracked, setDepth, Table.get?_update, tracked]
  split
  · cases w.heaps.get? r <;> rfl
  · rfl

/-- A new scope is tracked by its heap, if that exists. -/
theorem tracked_addScope (s : Scope) (r : Ref .heap) :
    (w.addScope s).tracked r = w.tracked r ∨
      (w.addScope s).tracked r = w.scopes.fresh :: w.tracked r := by
  rw [tracked, addScope, Table.get?_update, tracked]
  split
  · cases w.heaps.get? r with
    | none => exact .inl rfl
    | some x => exact .inr rfl
  · exact .inl rfl

theorem fresh_mem_tracked {s : Scope} (hs : s.heap.row < w.heaps.size) :
    w.scopes.fresh ∈ (w.addScope s).tracked s.heap := by
  obtain ⟨x, hx⟩ := Table.exists_of_lt_size hs
  rw [tracked, addScope, Table.get?_update, if_pos rfl, hx]
  exact List.mem_cons_self

/-- Releasing one heap leaves what others track. -/
theorem tracked_release {h r : Ref .heap} (hr : r ≠ h) :
    (w.release r).tracked h = w.tracked h := by
  rw [tracked, heaps_release, Table.get?_update, if_neg hr, tracked]

end

end World

end ScriptModules
