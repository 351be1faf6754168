import ScriptModules.Proofs.Passages
import ScriptModules.Proofs.Quiet

/-!
# How long lists get

Scripts make a list that is there longer in two ways: by writing behind its end, and by pushing.
Each of them looks at the limit for itself, the one at the index and the other at the new length.
So no list is ever made longer than the limit by a script, whichever way it gets at the list; a
list that the host made longer does not grow (`Machine.lists_stay_within_limit`). And a write or a
push that is refused has not touched any list.
-/

namespace ScriptModules

/-- **Lists that were there are there still,** and none of them has grown beyond the limit. -/
def World.ListsWithinLimit (w w' : World) : Prop :=
  ∀ l items, w.lists.get? l = some items →
    ∃ items', w'.lists.get? l = some items' ∧ items'.size ≤ max items.size (2 ^ 20)

namespace World.ListsWithinLimit

variable {w w₁ w₂ : World}

theorem of_same (h : w₁.lists = w.lists) : w.ListsWithinLimit w₁ := fun l items hl =>
  ⟨items, by rwa [h], Nat.le_max_left ..⟩

theorem trans (h : w.ListsWithinLimit w₁) (h' : w₁.ListsWithinLimit w₂) :
    w.ListsWithinLimit w₂ := by
  intro l items hl
  obtain ⟨items₁, hl₁, hsize₁⟩ := h l items hl
  obtain ⟨items₂, hl₂, hsize₂⟩ := h' l items₁ hl₁
  exact ⟨items₂, hl₂, by omega⟩

/-- One list may get other items, if these are not too many. -/
theorem changeItems {l : Ref .list} {f : Array Value → Array Value}
    (hf : ∀ items, w.items l = items → (f items).size ≤ max items.size (2 ^ 20)) :
    w.ListsWithinLimit (w.changeItems l f) := by
  intro l' items hl
  by_cases heq : l = l'
  · subst heq
    refine ⟨f items, ?_, hf items (by rw [World.items, hl]; rfl)⟩
    rw [World.changeItems, Table.get?_update, if_pos rfl, hl]
    rfl
  · exact ⟨items, by rwa [World.changeItems, Table.get?_update, if_neg heq], Nat.le_max_left ..⟩

end World.ListsWithinLimit

/-! ### The two ways -/

theorem size_writeItem (items : Array Value) (i : Nat) (v : Value) :
    (writeItem items i v).size = max items.size (i + 1) := by
  unfold writeItem
  split
  · rw [Array.size_setIfInBounds]
    omega
  · rw [Array.size_push, Array.size_append, Array.size_replicate]
    omega

/-- **A change of a list** keeps to the limit, or is refused and changes nothing. -/
theorem ListChange.withinLimit (w : World) (change : ListChange) :
    w.ListsWithinLimit (change.after w) := by
  cases change with
  | write l key v =>
    change w.ListsWithinLimit (Run.setListMember l key v w).2
    unfold Run.setListMember
    cases parseIndex key with
    | none => exact .of_same rfl
    | some i =>
      dsimp only
      split
      · exact .of_same rfl
      · next hwithin =>
        -- the index is below the limit, and the list gets at most one longer than that
        refine .changeItems fun items hitems => ?_
        rw [hitems] at hwithin
        rw [size_writeItem]
        have hlimit : listLimit = 2 ^ 20 := rfl
        omega
  | push l vs =>
    change w.ListsWithinLimit (ListMethod.pushAll l vs w).2
    unfold ListMethod.pushAll
    dsimp only
    split
    · exact .of_same rfl
    · next hwithin =>
      refine .changeItems fun items hitems => ?_
      rw [hitems] at hwithin
      rw [Array.size_append]
      have hlimit : listLimit = 2 ^ 20 := rfl
      omega

theorem Effect.Takes.listsWithinLimit {w w' : World} {e : Effect} (h : e.Takes w w') :
    w.ListsWithinLimit w' := by
  cases h with
  | list change => exact change.withinLimit w
  | read hc hv =>
    obtain ⟨hlists, -⟩ := Run.realize_frame hc hv
    exact .of_same hlists
  | store s name x => exact .of_same rfl

/-- **Whoever passes keeps to the limit,** step by step. -/
theorem World.Passage.listsWithinLimit {w w' : World} {es : List Effect} (h : w.Passage es w') :
    w.ListsWithinLimit w' := by
  induction h with
  | refl => exact .of_same rfl
  | spare _ hs ih => exact ih.trans fun l items hl => ⟨items, hs.lists l items hl, Nat.le_max_left ..⟩
  | effect _ he ih => exact ih.trans he.listsWithinLimit
  | @release _ w₁ h _ _ ih =>
    obtain ⟨table, htable⟩ := w₁.release_eq h
    rw [htable]
    exact ih.trans (.of_same rfl)

/-! ### Steps of scripts -/

/-- A step of a script that may change a list: the end of an assignment to a member, where all
operands have their values, or a push. -/
inductive ListStep where
  | assign (op : AssignOp) (target : Value) (key : String) (rhs : Value)
  | push (l : Ref .list) (vs : Array Value)

/-- What the step does. A compound assignment reads the member first. -/
def ListStep.run : ListStep → Script Value
  | .assign op target key rhs => do
    let v ← op.combine (Run.getMember target key) rhs
    Run.setMember target key v
    return v
  | .push l vs => ListMethod.pushAll l vs

/-- Lists are the same. -/
def World.SameLists (w w' : World) : Prop := w'.lists = w.lists

namespace World.SameLists

instance : Std.Refl World.SameLists := ⟨fun _ => rfl⟩

instance : IsTrans World World.SameLists := ⟨fun _ _ _ h h' => h'.trans h⟩

end World.SameLists

/-- What is assigned is found without touching a list. -/
theorem AssignOp.combine_sameLists (op : AssignOp) (target : Value) (key : String) (rhs : Value) :
    Run.Within World.SameLists (op.combine (Run.getMember target key) rhs) :=
  op.combine_within rhs (Run.getMember_within (fun _ _ => .changeGet fun _ => rfl)
    (fun _ _ => .changeGet fun _ => rfl) target key)

theorem Run.setMember_failed {target : Value} {key : String} {v : Value} {e : ScriptError}
    {w w' : World} (h : Run.setMember target key v w = (.failed e, w')) : w' = w := by
  cases target with
  | list l =>
    change Run.setListMember l key v w = (.failed e, w') at h
    unfold Run.setListMember at h
    cases hkey : parseIndex key with
    | none =>
      rw [hkey] at h
      cases h
    | some i =>
      rw [hkey] at h
      dsimp only at h
      split at h
      · exact (Prod.mk.inj h).2.symm
      · cases h
  | undefined => exact (Prod.mk.inj h).2.symm
  | null => exact (Prod.mk.inj h).2.symm
  | object o => cases h
  | _ => cases h

/-- **A step that fails has not touched a list.** -/
theorem ListStep.lists_of_failed (step : ListStep) {w w' : World} {e : ScriptError}
    (h : step.run w = (.failed e, w')) : w'.lists = w.lists := by
  cases step with
  | assign op target key rhs =>
    have hcombine := op.combine_sameLists target key rhs
    rcases Run.ends_of_bind (r := .error e) h with ⟨e', -, hvalue⟩ | ⟨v, w₁, hvalue, hset⟩
    · exact hcombine.of_eq (r := .error e') hvalue
    · -- the value was found, so it is the write that was refused
      rcases Run.ends_of_bind (r := .error e) hset with ⟨e', -, hset⟩ | ⟨_, _, _, hpure⟩
      · rw [Run.setMember_failed hset]
        exact hcombine.of_eq (r := .ok v) hvalue
      · cases hpure
  | push l vs =>
    change ListMethod.pushAll l vs w = _ at h
    unfold ListMethod.pushAll at h
    dsimp only at h
    split at h
    · exact congrArg World.lists (Prod.mk.inj h).2.symm
    · cases h

theorem ListStep.passes (step : ListStep) : step.run.Passes := by
  have C := Run.Passes.conduct
  cases step with
  | assign op target key rhs =>
    exact C.seq (C.combine op rhs (C.getMember target key)) fun v =>
      C.seq (C.setMember target key v) fun _ => C.pure
  | push l vs => exact C.pushAll l vs

/-! ### Whole runs -/

/-- From whatever world the run begins in, it keeps to the limit. -/
def Run.WithinLimit {ε α : Type} (x : Run ε α) : Prop := ∀ w : World, w.ListsWithinLimit (x w).2

theorem Run.Passes.withinLimit {ε α : Type} {x : Run ε α} (h : x.Passes) : x.WithinLimit :=
  fun w => by
    obtain ⟨es, hes⟩ := h w
    exact hes.listsWithinLimit

/-- **No evaluation makes a list that is there longer than the limit.** Assignments to an index,
simple or compound, and pushes take their operands' values and are then one step; no such step makes
a list longer than the limit, and if it fails it leaves all lists as they were. Nothing else that is
evaluated does more: no expression or statement, in whatever scope, no program and no call, and no
listener or task, whatever they call back. A list that is longer already does not grow. -/
theorem Machine.lists_stay_within_limit (n : Nat) :
    (∀ step : ListStep, step.run.WithinLimit ∧
      ∀ w e w', step.run w = (.failed e, w') → w'.lists = w.lists) ∧
    (∀ s op o k e, (Expr.assign op (.index o k) e).eval (ofFuel n).call s = do
      let target ← o.eval (ofFuel n).call s
      let k ← k.eval (ofFuel n).call s
      let key ← Run.textOf k
      let rhs ← e.eval (ofFuel n).call s
      (ListStep.assign op target key rhs).run) ∧
    (∀ l arguments, ListMethod.push.invoke (ofFuel n).call l arguments =
      (ListStep.push l arguments).run) ∧
    (∀ s (e : Expr), (e.eval (ofFuel n).call s).WithinLimit) ∧
    (∀ s (stmt : Stmt), (stmt.exec (ofFuel n).call s).WithinLimit) ∧
    (∀ (p : Program) b, (p.evaluate (ofFuel n).call b).WithinLimit) ∧
    (ofFuel n).Conducts fun x => Run.WithinLimit x := by
  have hmachine := ofFuel_passes n
  exact ⟨fun step => ⟨step.passes.withinLimit, fun _ _ _ => step.lists_of_failed⟩,
    fun s op o k e => rfl, fun l arguments => rfl,
    fun s e => (e.eval_passes n s).withinLimit, fun s stmt => (stmt.exec_passes n s).withinLimit,
    fun p b => (p.evaluate_passes n b).withinLimit,
    ⟨fun f this arguments => (hmachine.call f this arguments).withinLimit,
      fun l v => (hmachine.notify l v).withinLimit, fun c => (hmachine.drain c).withinLimit⟩⟩

end ScriptModules
