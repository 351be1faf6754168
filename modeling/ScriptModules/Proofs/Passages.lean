import ScriptModules.Proofs.ConductRuns
import ScriptModules.Proofs.ScopeChains

/-!
# Passages

Functions that were there at the beginning of a passage are there at its end, and so are scopes: they
lie where they lay, and have the same variables but for those that were stored on the way
(`World.Passage.scope_kept`). Only heaps that were made on the way are released, and these track no
scope that is older.

Everything that a machine does makes a passage: a step that has no effect, or one of the effects,
and then the next (`Machine.ofFuel_passes`). Calls, expressions, statements and programs are parts of
what a machine does, and each of them makes one from whatever world it begins in.
-/

namespace ScriptModules

/-! ### What is kept on the way -/

/-- **A scope later on.** It lies where it lay and means the same, but variables may have been stored
in it. -/
structure Scope.Grows (s : Ref .scope) (es : List Effect) (x y : Scope) : Prop where
  place : y.place = x.place
  globals : y.globals = x.globals
  kept : ∀ name, (x.locals.get? name).isSome → (y.locals.get? name).isSome
  source : ∀ name v, y.locals.get? name = some v →
    x.locals.get? name = some v ∨ .store s name v ∈ es

namespace Scope.Grows

variable {s : Ref .scope} {es es' : List Effect} {x y z : Scope}

theorem refl : x.Grows s es x := ⟨rfl, rfl, fun _ => id, fun _ _ => .inl⟩

theorem trans (h : x.Grows s es y) (h' : y.Grows s es' z) : x.Grows s (es ++ es') z where
  place := h'.place.trans h.place
  globals := h'.globals.trans h.globals
  kept name hx := h'.kept name (h.kept name hx)
  source name v hv := by
    rcases h'.source name v hv with hv | hstored
    · exact (h.source name v hv).imp_right (List.mem_append_left _)
    · exact .inr (List.mem_append_right _ hstored)

theorem store (name : String) (v : Variable) :
    x.Grows s [.store s name v] { x with locals := x.locals.insert name v } where
  place := rfl
  globals := rfl
  kept other hx := by
    rw [OrderedMap.get?_insert]
    split
    · rfl
    · exact hx
  source other u hu := by
    rw [OrderedMap.get?_insert] at hu
    split at hu
    · next hsame =>
      obtain rfl := Option.some.inj hu
      exact .inr (hsame ▸ List.mem_singleton_self _)
    · exact .inl hu

end Scope.Grows

namespace Effect.Takes

variable {w w' : World} {e : Effect}

theorem scopes_size (h : e.Takes w w') : w'.scopes.size = w.scopes.size := by
  cases h with
  | list change =>
    obtain ⟨lists, heq⟩ := change.after_eq w
    rw [heq]
  | read hc hv =>
    obtain ⟨-, hscopes, -, -⟩ := Run.realize_frame hc hv
    rw [hscopes]
  | store s name x => exact Table.size_update ..

theorem function_kept (h : e.Takes w w') {f : Ref .function} {x : Callable}
    (hf : w.functions.get? f = some x) : w'.functions.get? f = some x := by
  cases h with
  | list change =>
    obtain ⟨lists, heq⟩ := change.after_eq w
    rwa [heq]
  | read hc hv =>
    obtain ⟨-, -, -, hfunctions⟩ := Run.realize_frame hc hv
    exact hfunctions f x hf
  | store s name y => exact hf

/-- An effect stores a variable, or leaves scopes alone. -/
theorem scope_kept (h : e.Takes w w') {s : Ref .scope} {x : Scope}
    (hx : w.scopes.get? s = some x) : ∃ y, w'.scopes.get? s = some y ∧ x.Grows s [e] y := by
  cases h with
  | list change =>
    obtain ⟨lists, heq⟩ := change.after_eq w
    exact ⟨x, by rwa [heq], .refl⟩
  | read hc hv =>
    obtain ⟨-, hscopes, -, -⟩ := Run.realize_frame hc hv
    exact ⟨x, by rwa [hscopes], .refl⟩
  | store r name v =>
    by_cases hr : r = s
    · subst hr
      refine ⟨_, ?_, .store name v⟩
      rw [World.setVariable, Table.get?_update, if_pos rfl, hx]
      rfl
    · exact ⟨x, by rwa [World.setVariable, Table.get?_update, if_neg hr], .refl⟩

end Effect.Takes

namespace World.Passage

variable {w w' : World} {es : List Effect}

theorem function_kept (h : w.Passage es w') {f : Ref .function} {x : Callable}
    (hf : w.functions.get? f = some x) : w'.functions.get? f = some x := by
  induction h with
  | refl => exact hf
  | spare _ hspares ih => exact hspares.functions f x ih
  | effect _ he ih => exact he.function_kept ih
  | @release _ w₁ h _ _ ih =>
    obtain ⟨table, heq⟩ := w₁.release_eq h
    rwa [heq]

/-- Scopes do not go away, and heaps made on the way track only scopes made on the way. -/
theorem recent (h : w.Passage es w') : w.scopes.size ≤ w'.scopes.size ∧
    ∀ r : Ref .heap, w.heaps.size ≤ r.row → ∀ s ∈ w'.tracked r, w.scopes.size ≤ s.row := by
  induction h with
  | refl =>
    -- there is no such heap yet
    refine ⟨Nat.le_refl _, fun r hr s hs => ?_⟩
    have hnone : w.heaps.get? r = none := Array.getElem?_eq_none hr
    rw [World.tracked, hnone] at hs
    cases hs
  | spare _ hspares ih =>
    refine ⟨Nat.le_trans ih.1 hspares.count, fun r hr s hs => ?_⟩
    rcases hspares.tracked r s hs with hs | hnew
    · exact ih.2 r hr s hs
    · exact Nat.le_trans ih.1 hnew
  | effect _ he ih =>
    refine ⟨he.scopes_size ▸ ih.1, fun r hr s hs => ih.2 r hr s ?_⟩
    rwa [World.tracked, he.heaps] at hs
  | @release _ w₁ h _ _ ih =>
    refine ⟨(w₁.release_samePlaces h).size ▸ ih.1, fun r hr s hs => ih.2 r hr s ?_⟩
    -- the heap that is released tracks nothing then, and the others what they tracked
    by_cases hrh : h = r
    · rw [hrh, (w₁.released r).1] at hs
      cases hs
    · rwa [w₁.tracked_release hrh] at hs

/-- **A scope that is there stays,** with its variables or others that were stored since. -/
theorem scope_kept (h : w.Passage es w') {s : Ref .scope} {x : Scope}
    (hx : w.scopes.get? s = some x) : ∃ y, w'.scopes.get? s = some y ∧ x.Grows s es y := by
  induction h with
  | refl => exact ⟨x, hx, .refl⟩
  | spare _ hspares ih =>
    obtain ⟨y, hy, hgrows⟩ := ih
    exact ⟨y, hspares.scopes s y hy, hgrows⟩
  | effect _ he ih =>
    obtain ⟨y, hy, hgrows⟩ := ih
    obtain ⟨z, hz, hgrows'⟩ := he.scope_kept hy
    exact ⟨z, hz, hgrows.trans hgrows'⟩
  | @release _ w₁ h hpassage hnew ih =>
    obtain ⟨y, hy, hgrows⟩ := ih
    -- the scope is older than the heap that is released, so it is not tracked there
    have hnot : s ∉ w₁.tracked h := fun hs =>
      absurd (World.lt_size_of_get? hx) (Nat.not_lt.2 (hpassage.recent.2 h hnew s hs))
    refine ⟨y, ?_, hgrows⟩
    change ((w₁.tracked h).foldl World.emptyScope w₁).scopes.get? s = _
    rw [World.get?_emptyScopes, if_neg hnot, hy]

end World.Passage

/-! ### Machines -/

/-- Everything is admitted. -/
def Terms.all : Terms where
  sites _ := True
  modules _ _ _ _ := True
  environments _ _ := True
  names _ := True

theorem Terms.free_all : Terms.all.Free := fun _ => trivial

theorem Terms.holds_all (w : World) : Terms.all.Holds w where
  functions f x _ := by cases x <;> first | exact .inl Terms.free_all | exact trivial
  waiting c t _ := by cases t <;> trivial
  started c t _ := by cases t <;> trivial
  environments _ _ _ := trivial

/-- **Every operation passes.** -/
theorem Run.Passes.conduct : Conduct Terms.all fun x => Run.Passes x where
  terms := ⟨fun _ => trivial, fun _ _ _ => trivial, fun _ _ => trivial⟩
  inert hx := hx.passes
  bind hx hf := .bind hx fun a ⟨w, w', h⟩ => hf a ⟨w, w', Terms.holds_all w, h⟩
  attempt := .attempt
  mapError := .mapError
  andAlways := .andAlways
  onFailure := .onFailure
  heapOf _ := .of_spares .refl
  thisOf _ := .of_spares .refl
  newRootScope _ _ := .newScope _
  newInnerScope _ _ := .bind (.of_spares .refl) fun _ _ => .newScope _
  declare s x v constant _ := .setVariable s x ⟨v, constant⟩
  tryLookup s x _ := .tryLookup s x
  assign s x v _ := .assign s x v
  onOwnHeap b _ hf := .onOwnHeap b hf

/-- **All that a machine does passes.** -/
theorem Machine.ofFuel_passes (n : Nat) : (ofFuel n).Conducts fun x => Run.Passes x :=
  ofFuel_conducts Run.Passes.conduct n

section

variable (n : Nat) (s : Ref .scope)

theorem Expr.eval_passes (e : Expr) : (e.eval (Machine.ofFuel n).call s).Passes :=
  Run.Passes.conduct.eval (Machine.ofFuel_passes n).call s e (.inl Terms.free_all)

theorem Stmt.exec_passes (stmt : Stmt) : (stmt.exec (Machine.ofFuel n).call s).Passes :=
  Run.Passes.conduct.exec (Machine.ofFuel_passes n).call s stmt (.inl Terms.free_all)

theorem Stmt.execAll_passes (statements : List Stmt) :
    (Stmt.execAll (Machine.ofFuel n).call s statements).Passes :=
  Run.Passes.conduct.execAll (Machine.ofFuel_passes n).call s statements (.inl Terms.free_all)

theorem Program.run_passes (p : Program) : (p.run (Machine.ofFuel n).call s).Passes :=
  Run.Passes.conduct.program (Machine.ofFuel_passes n).call s (.inl Terms.free_all)

theorem Program.evaluate_passes (p : Program) (b : Bindings) :
    (p.evaluate (Machine.ofFuel n).call b).Passes :=
  Run.Passes.conduct.evaluateProgram (Machine.ofFuel_passes n).call (.inl Terms.free_all) b

end

/-- **A program runs in a root scope that is made for it,** and before that nothing happens. If a heap
was made for it too, that is released in the end. -/
theorem Program.exists_run_root (call : CallSemantics) (p : Program) (b : Bindings) (w : World) :
    ∃ (v : World) (h : Ref .heap), w.Passage [] (v.addScope (.root b h)) ∧
      (p.evaluate call b w).1 = (p.run call v.scopes.fresh (v.addScope (.root b h))).1 ∧
      ((p.evaluate call b w).2 = (p.run call v.scopes.fresh (v.addScope (.root b h))).2 ∨
        ∃ r : Ref .heap, w.heaps.size ≤ r.row ∧ (p.evaluate call b w).2 =
          (p.run call v.scopes.fresh (v.addScope (.root b h))).2.release r) := by
  cases hheap : b.heap with
  | some h =>
    have heq : p.evaluate call b w = p.run call w.scopes.fresh (w.addScope (.root b h)) := by
      unfold evaluate
      rw [hheap]
      rfl
    exact ⟨w, h, .of_spares (.addScope w _), congrArg Prod.fst heq, .inl (congrArg Prod.snd heq)⟩
  | none =>
    have heq : p.evaluate call b w = Run.andAlways (p.run call w.scopes.fresh)
        (·.release w.heaps.fresh) (w.addHeap.addScope (.root b w.heaps.fresh)) := by
      unfold evaluate
      rw [hheap]
      rfl
    obtain ⟨hresult, hend⟩ := Run.andAlways_ends (p.run call w.scopes.fresh)
      (·.release w.heaps.fresh) (w.addHeap.addScope (.root b w.heaps.fresh))
    rw [← heq] at hresult hend
    exact ⟨w.addHeap, w.heaps.fresh, .spare (.of_spares (.addHeap w)) (.addScope _ _), hresult,
      hend.imp_right fun hend => ⟨w.heaps.fresh, Nat.le_refl _, hend⟩⟩

end ScriptModules
