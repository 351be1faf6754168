import ScriptModules.Eval.Builtin
import ScriptModules.Proofs.Heaps

/-!
# Effects

A run does little to what was there when it began. It changes the items of a list, it reads a lazy
cell, or it stores a variable: these are its effects (`Effect`). All else that it does to lists,
scopes, functions and cells is to make new ones (`World.Spares`). And when a program has been
evaluated on a heap of its own, that heap is released, and there are new scopes only on it.

A passage from one world to another goes by such steps, and lists its effects in order
(`World.Passage`). A run passes if it makes a passage from every world (`Run.Passes`). What a
passage cannot do, no run can do that passes; so a law of all effects is a law of these runs.
-/

namespace ScriptModules

/-! ### What effects are of -/

/-- A change of the items of a list. -/
inductive ListChange where
  /-- An item is written, if the key stands for an index. -/
  | write (l : Ref .list) (key : String) (v : Value)
  /-- Items are put at the end. -/
  | push (l : Ref .list) (vs : Array Value)

/-- The world after a list was changed, or after the change was refused. -/
def ListChange.after (w : World) : ListChange → World
  | .write l key v => (Run.setListMember l key v w).2
  | .push l vs => (ListMethod.pushAll l vs w).2

/-- The supplier that is asked when the cell is read: none if its value is known. -/
def Cell.asks (x : Cell) : Option Supplier :=
  match x.value with
  | none => some x.supplier
  | some _ => none

/-- What a step does to a thing that was there before. -/
inductive Effect where
  | list (change : ListChange)
  /-- A lazy cell was read and has this value; its supplier was asked for it, or nobody was. -/
  | read (c : Ref .cell) (v : Value) (asked : Option Supplier)
  | store (s : Ref .scope) (name : String) (x : Variable)

/-- An effect leads from one world to another. -/
inductive Effect.Takes (w : World) : Effect → World → Prop
  | list (change : ListChange) : Takes w (.list change) (change.after w)
  | read {c : Ref .cell} {x : Cell} {v : Value} {w' : World} : w.cells.get? c = some x →
      (Run.realize c : Script Value) w = (.done v, w') → Takes w (.read c v x.asks) w'
  | store (s : Ref .scope) (name : String) (x : Variable) :
      Takes w (.store s name x) (w.setVariable s name x)

/-! ### What suppliers leave behind -/

/-- The name of a lazy binding of the host's, if the event is that it was read first. -/
def Event.realized? : Event → Option String
  | .realized name => some name
  | _ => none

/-- The timer that a function is, if it is one. -/
def Callable.timer? : Callable → Option (Timer × Ref .context)
  | .timer t c => some (t, c)
  | _ => none

namespace World

/-- The names of the host's lazy bindings whose suppliers were asked, in order. -/
def realizedNames (w : World) : List String := (w.log.filterMap Event.realized?).reverse

/-- The timers that were made, in order. -/
def timers (w : World) : List (Timer × Ref .context) :=
  w.functions.rows.toList.filterMap Callable.timer?

/-- **Nothing was done to lists, scopes, functions and cells but to make new ones,** and no supplier
was asked. New scopes may be tracked by any heap, and new cells have no value yet. -/
structure Spares (w w' : World) : Prop where
  lists : ∀ l items, w.lists.get? l = some items → w'.lists.get? l = some items
  scopes : ∀ s x, w.scopes.get? s = some x → w'.scopes.get? s = some x
  functions : ∀ f x, w.functions.get? f = some x → w'.functions.get? f = some x
  cells : ∀ c x, w.cells.get? c = some x → w'.cells.get? c = some x
  unread : ∀ c x, w'.cells.get? c = some x → w.cells.get? c = some x ∨ x.value = none
  heaps : w.heaps.size ≤ w'.heaps.size
  count : w.scopes.size ≤ w'.scopes.size
  tracked : ∀ h, ∀ s ∈ w'.tracked h, s ∈ w.tracked h ∨ w.scopes.size ≤ s.row
  names : w'.realizedNames = w.realizedNames
  timers : w'.timers = w.timers

/-- **From one world to another by steps,** with their effects in order. -/
inductive Passage (w : World) : List Effect → World → Prop
  | refl : Passage w [] w
  | spare {es : List Effect} {w₁ w₂ : World} : Passage w es w₁ → w₁.Spares w₂ → Passage w es w₂
  | effect {es : List Effect} {e : Effect} {w₁ w₂ : World} : Passage w es w₁ → e.Takes w₁ w₂ →
      Passage w (es ++ [e]) w₂
  /-- A heap that was made on the way is released. -/
  | release {es : List Effect} {w₁ : World} {h : Ref .heap} : Passage w es w₁ →
      w.heaps.size ≤ h.row → Passage w es (w₁.release h)

/-! ### Steps that spare what there is -/

namespace Spares

variable {w w' : World}

/-- Other tables may change. -/
theorem of_same (hl : w'.lists = w.lists) (hs : w'.scopes = w.scopes)
    (hf : w'.functions = w.functions) (hc : w'.cells = w.cells) (hh : w'.heaps = w.heaps)
    (hlog : w'.log = w.log) : w.Spares w' where
  lists l items h := by rwa [hl]
  scopes s x h := by rwa [hs]
  functions f x h := by rwa [hf]
  cells c x h := by rwa [hc]
  unread c x h := .inl (by rwa [← hc])
  heaps := Nat.le_of_eq (congrArg Table.size hh).symm
  count := Nat.le_of_eq (congrArg Table.size hs).symm
  tracked h s hs := .inl (by rwa [World.tracked, hh] at hs)
  names := by rw [realizedNames, hlog, realizedNames]
  timers := by rw [World.timers, hf, World.timers]

theorem refl (w : World) : w.Spares w := of_same rfl rfl rfl rfl rfl rfl

theorem addList (w : World) (items : Array Value) :
    w.Spares { w with lists := w.lists.add items } :=
  { refl w with lists := fun _ _ => Table.get?_add_of_get?_eq_some items }

theorem addCell (w : World) (supplier : Supplier) :
    w.Spares { w with cells := w.cells.add ⟨supplier, none⟩ } :=
  { refl w with
    cells := fun _ _ => Table.get?_add_of_get?_eq_some _
    unread := fun c x hx => by
      have hx : (w.cells.add ⟨supplier, none⟩).get? c = some x := hx
      rw [Table.get?_add] at hx
      split at hx
      · exact .inr (Option.some.inj hx ▸ rfl)
      · exact .inl hx }

/-- A function that is no timer. -/
theorem addFunction (w : World) {f : Callable} (hf : f.timer? = none) :
    w.Spares { w with functions := w.functions.add f } :=
  { refl w with
    functions := fun _ _ => Table.get?_add_of_get?_eq_some f
    timers := by
      simp only [World.timers, Table.add, Array.toList_push, List.filterMap_append,
        List.filterMap_cons_none hf, List.filterMap_nil, List.append_nil] }

theorem addHeap (w : World) : w.Spares w.addHeap :=
  { refl w with
    heaps := (Table.size_add w.heaps {}).symm ▸ Nat.le_succ _
    tracked := fun h s hs => .inl (by rwa [World.tracked, w.heap_addHeap] at hs) }

theorem addScope (w : World) (x : Scope) : w.Spares (w.addScope x) :=
  { refl w with
    scopes := fun _ _ => Table.get?_add_of_get?_eq_some x
    heaps := Nat.le_of_eq (Table.size_update ..).symm
    count := (Table.size_add w.scopes x).symm ▸ Nat.le_succ _
    tracked := fun h s hs => by
      rcases w.tracked_addScope x h with hsame | hmore
      · exact .inl (hsame ▸ hs)
      · rw [hmore] at hs
        rcases List.mem_cons.1 hs with rfl | hs
        · exact .inr (Nat.le_refl _)
        · exact .inl hs }

theorem setDepth (w : World) (h : Ref .heap) (n : Nat) : w.Spares (w.setDepth h n) :=
  { refl w with
    heaps := Nat.le_of_eq (Table.size_update ..).symm
    tracked := fun r s hs => .inl (by rwa [w.tracked_setDepth] at hs) }

/-- An event other than that a supplier was asked. -/
theorem note (w : World) {e : Event} (he : e.realized? = none) : w.Spares (w.note e) :=
  { refl w with
    names := by
      simp only [realizedNames, World.note, List.filterMap_cons_none he] }

end Spares

end World

/-! ### Lazy cells -/

namespace Run

variable {ε : Type} {w : World} {c : Ref .cell}

theorem realize_of_value {s : Supplier} {v : Value} (hc : w.cells.get? c = some ⟨s, some v⟩) :
    (realize c : Run ε Value) w = (.done v, w) := by
  simp only [realize, hc]

/-- A value of the host's is logged under its name. -/
theorem realize_of_host {name : String} {v : Value}
    (hc : w.cells.get? c = some ⟨.host name v, none⟩) :
    (realize c : Run ε Value) w = (.done v, { w.note (.realized name) with
      cells := w.cells.update c fun x => { x with value := some v } }) := by
  simp only [realize, hc]
  rfl

/-- A timer is a new function. -/
theorem realize_of_timer {t : Timer} {context : Ref .context}
    (hc : w.cells.get? c = some ⟨.timer t context, none⟩) :
    (realize c : Run ε Value) w = (.done (.function w.functions.fresh), { w with
      functions := w.functions.add (.timer t context)
      cells := w.cells.update c fun x => { x with value := some (.function w.functions.fresh) } }) := by
  simp only [realize, hc]
  rfl

/-- A cell that is read has a value. -/
theorem exists_realize_eq (w : World) {x : Cell} (hc : w.cells.get? c = some x) :
    ∃ v w', ∀ ε, (realize c : Run ε Value) w = (.done v, w') := by
  obtain ⟨⟨t, context⟩ | ⟨name, u⟩, _ | v⟩ := x
  · exact ⟨_, _, fun _ => realize_of_timer hc⟩
  · exact ⟨_, _, fun _ => realize_of_value hc⟩
  · exact ⟨_, _, fun _ => realize_of_host hc⟩
  · exact ⟨_, _, fun _ => realize_of_value hc⟩

/-- Beside the cell, functions and the log nothing changes when a cell is read. -/
theorem realize_frame {w' : World} {x : Cell} {v : Value} (hc : w.cells.get? c = some x)
    (hv : (realize c : Run ε Value) w = (.done v, w')) :
    w'.lists = w.lists ∧ w'.scopes = w.scopes ∧ w'.heaps = w.heaps ∧
      ∀ f y, w.functions.get? f = some y → w'.functions.get? f = some y := by
  obtain ⟨⟨t, context⟩ | ⟨name, u⟩, _ | v'⟩ := x
  case timer.none =>
    obtain ⟨-, rfl⟩ := Prod.mk.inj ((realize_of_timer hc).symm.trans hv)
    exact ⟨rfl, rfl, rfl, fun _ _ => Table.get?_add_of_get?_eq_some _⟩
  case host.none =>
    obtain ⟨-, rfl⟩ := Prod.mk.inj ((realize_of_host hc).symm.trans hv)
    exact ⟨rfl, rfl, rfl, fun _ _ => id⟩
  all_goals
    obtain ⟨-, rfl⟩ := Prod.mk.inj ((realize_of_value hc).symm.trans hv)
    exact ⟨rfl, rfl, rfl, fun _ _ => id⟩

end Run

/-! ### Passages -/

/-- A change of a list changes lists only. -/
theorem ListChange.after_eq (w : World) (change : ListChange) :
    ∃ lists, change.after w = { w with lists := lists } := by
  cases change with
  | write l key v =>
    change ∃ lists, (Run.setListMember l key v w).2 = { w with lists := lists }
    unfold Run.setListMember
    cases parseIndex key with
    | none => exact ⟨_, rfl⟩
    | some i =>
      dsimp only
      split <;> exact ⟨_, rfl⟩
  | push l vs =>
    change ∃ lists, (ListMethod.pushAll l vs w).2 = { w with lists := lists }
    unfold ListMethod.pushAll
    dsimp only
    split <;> exact ⟨_, rfl⟩

/-- Effects leave heaps alone. -/
theorem Effect.Takes.heaps {w w' : World} {e : Effect} (h : e.Takes w w') : w'.heaps = w.heaps := by
  cases h with
  | list change =>
    obtain ⟨lists, heq⟩ := change.after_eq w
    rw [heq]
  | read hc hv =>
    obtain ⟨-, -, hheaps, -⟩ := Run.realize_frame hc hv
    exact hheaps
  | store s name x => rfl

namespace World.Passage

variable {w w₁ w₂ : World} {es es' : List Effect}

/-- Heaps do not go away. -/
theorem heaps_le (h : w.Passage es w₁) : w.heaps.size ≤ w₁.heaps.size := by
  induction h with
  | refl => exact Nat.le_refl _
  | spare _ hs ih => exact Nat.le_trans ih hs.heaps
  | effect _ he ih => rwa [he.heaps]
  | release _ _ ih => rwa [heaps_release, Table.size_update]

theorem trans (h : w.Passage es w₁) (h' : w₁.Passage es' w₂) : w.Passage (es ++ es') w₂ := by
  -- the second part goes on at its end, so the induction is on that
  induction h' with
  | refl => rwa [List.append_nil]
  | spare _ hs ih => exact ih.spare hs
  | effect _ he ih =>
    rw [← List.append_assoc]
    exact ih.effect he
  | release _ hle ih =>
    -- what was made on the second part was made on the whole way
    exact ih.release (Nat.le_trans h.heaps_le hle)

theorem of_spares (h : w.Spares w₁) : w.Passage [] w₁ := .spare .refl h

theorem of_effect {e : Effect} (h : e.Takes w w₁) : w.Passage [e] w₁ := .effect .refl h

end World.Passage

/-! ### Reading a binding -/

/-- **What reading a binding gives,** and the effects of it: a lazy binding whose cell exists is
read in that cell. -/
def Binding.Gives (w : World) (v : Value) (es : List Effect) : Binding → Prop
  | .value u => v = u ∧ es = []
  | .lazy c => (w.cells.get? c).isSome → ∃ asked, es = [.read c v asked]

theorem Binding.realize_gives (w : World) (b : Binding) :
    ∃ v w' es, (∀ ε, (b.realize : Run ε Value) w = (.done v, w')) ∧ w.Passage es w' ∧
      b.Gives w v es := by
  cases b with
  | value v => exact ⟨v, w, [], fun _ => rfl, .refl, rfl, rfl⟩
  | lazy c =>
    cases hc : w.cells.get? c with
    | none =>
      -- no such binding is ever made, but the binding alone does not say so
      refine ⟨.undefined, w, [], fun ε => ?_, .refl, fun hsome => ?_⟩
      · change (Run.realize c : Run ε Value) w = _
        simp only [Run.realize, hc]
      · rw [hc] at hsome
        cases hsome
    | some x =>
      obtain ⟨v, w', hreads⟩ := Run.exists_realize_eq w hc
      exact ⟨v, w', _, hreads, .of_effect (.read hc (hreads ScriptError)), fun _ => ⟨_, rfl⟩⟩

/-! ### Runs that pass -/

/-- What is done at the end is done to the world alone, if it is done. -/
theorem Run.andAlways_ends {ε α : Type} (x : Run ε α) (g : World → World) (w : World) :
    (Run.andAlways x g w).1 = (x w).1 ∧
      ((Run.andAlways x g w).2 = (x w).2 ∨ (Run.andAlways x g w).2 = g (x w).2) := by
  unfold Run.andAlways
  rcases x w with ⟨a | e | _, w'⟩
  · exact ⟨rfl, .inr rfl⟩
  · exact ⟨rfl, .inr rfl⟩
  · exact ⟨rfl, .inl rfl⟩

/-- **A run that makes a passage from every world.** -/
def Run.Passes {ε α : Type} (x : Run ε α) : Prop := ∀ w : World, ∃ es, w.Passage es (x w).2

namespace Run.Passes

variable {ε ε' α β : Type} {x : Run ε α}

theorem of_spares (h : ∀ w : World, w.Spares (x w).2) : x.Passes := fun w => ⟨[], .of_spares (h w)⟩

theorem pure {a : α} : (pure a : Run ε α).Passes := of_spares .refl

/-- What is run next may take its value for one that there can be. -/
theorem bind {f : α → Run ε β} (hx : x.Passes)
    (hf : ∀ a, (∃ w w', x w = (.done a, w')) → (f a).Passes) : (x >>= f).Passes := by
  intro w
  obtain ⟨es, hes⟩ := hx w
  rw [Run.bind_apply]
  rcases hr : x w with ⟨a | e | _, w'⟩
  · rw [hr] at hes
    obtain ⟨es', hes'⟩ := hf a ⟨w, w', hr⟩ w'
    exact ⟨es ++ es', hes.trans hes'⟩
  · rw [hr] at hes
    exact ⟨es, hes⟩
  · rw [hr] at hes
    exact ⟨es, hes⟩

/-- A run that ends in the same world as one that passes. -/
theorem of_same_end {y : Run ε' β} (hx : x.Passes) (h : ∀ w, (y w).2 = (x w).2) : y.Passes :=
  fun w => by
    rw [h w]
    exact hx w

theorem attempt (hx : x.Passes) : (Run.attempt x : Run ε' _).Passes := hx.of_same_end fun w => by
  unfold Run.attempt
  split <;> next heq => rw [heq]

theorem mapError {g : ε → ε'} (hx : x.Passes) : (Run.mapError g x).Passes :=
  hx.of_same_end fun w => by
    unfold Run.mapError
    split <;> next heq => rw [heq]

/-- The world may be changed at the end, if the change alone passes. -/
theorem andAlways {g : World → World} (hx : x.Passes)
    (hg : (Run.change g : Run ε Unit).Passes) : (Run.andAlways x g).Passes := by
  intro w
  obtain ⟨es, hes⟩ := hx w
  obtain ⟨-, hend | hend⟩ := Run.andAlways_ends x g w
  · exact ⟨es, hend ▸ hes⟩
  · obtain ⟨es', hes'⟩ := hg (x w).2
    exact ⟨es ++ es', hend ▸ hes.trans hes'⟩

theorem onFailure {g : ε → World → World} (hx : x.Passes)
    (hg : ∀ e, (Run.change (g e) : Run ε Unit).Passes) : (Run.onFailure g x).Passes := by
  intro w
  obtain ⟨es, hes⟩ := hx w
  unfold Run.onFailure
  rcases hr : x w with ⟨a | e | _, w'⟩ <;> rw [hr] at hes
  · exact ⟨es, hes⟩
  · obtain ⟨es', hes'⟩ := hg e w'
    exact ⟨es ++ es', hes.trans hes'⟩
  · exact ⟨es, hes⟩

/-! ### Operations -/

theorem setListMember (l : Ref .list) (key : String) (v : Value) :
    (Run.setListMember l key v).Passes := fun _ => ⟨_, .of_effect (.list (.write l key v))⟩

theorem pushAll (l : Ref .list) (vs : Array Value) : (ListMethod.pushAll l vs).Passes :=
  fun _ => ⟨_, .of_effect (.list (.push l vs))⟩

theorem setVariable (s : Ref .scope) (name : String) (x : Variable) :
    (Run.change (·.setVariable s name x) : Run ε Unit).Passes :=
  fun _ => ⟨_, .of_effect (.store s name x)⟩

theorem realizeBinding (b : Binding) : (b.realize : Run ε Value).Passes := fun w => by
  obtain ⟨v, w', es, hrun, hes, -⟩ := b.realize_gives w
  rw [hrun ε]
  exact ⟨es, hes⟩

theorem realize (c : Ref .cell) : (Run.realize c : Run ε Value).Passes := realizeBinding (.lazy c)

theorem get? (b : Bindings) (name : String) : (b.get? name : Run ε _).Passes := by
  unfold Bindings.get?
  split
  · exact .pure
  · exact .bind (realizeBinding _) fun _ _ => .pure

theorem newScope (x : Scope) : (Run.newScope x : Run ε _).Passes := of_spares fun w => .addScope w x

theorem tryLookup (s : Ref .scope) (name : String) : (Run.tryLookup s name : Run ε _).Passes := by
  intro w
  unfold Run.tryLookup
  split
  · exact ⟨[], .refl⟩
  · split
    · exact get? _ name w
    · exact ⟨[], .refl⟩

theorem assign (s : Ref .scope) (name : String) (v : Value) : (Run.assign s name v).Passes := by
  intro w
  unfold Run.assign
  split
  · split
    · exact ⟨[], .refl⟩
    · exact ⟨_, .of_effect (.store ..)⟩
  · exact ⟨_, .of_effect (.store ..)⟩

/-- **A heap of its own** that is released at the end is new. -/
theorem onOwnHeap (b : Bindings) {f : Ref .heap → Ref .scope → Run ε α}
    (hf : ∀ h s, (f h s).Passes) :
    (do let h ← Run.newHeap; let s ← Run.newRootScope b h
        Run.andAlways (f h s) (·.release h) : Run ε α).Passes := by
  intro w
  let w₀ := w.addHeap.addScope (.root b w.heaps.fresh)
  have hmade : w.Passage [] w₀ := .spare (.of_spares (.addHeap w)) (.addScope _ _)
  obtain ⟨es, hes⟩ := hf w.heaps.fresh w.scopes.fresh w₀
  refine ⟨es, ?_⟩
  obtain ⟨-, hend | hend⟩ := Run.andAlways_ends (f w.heaps.fresh w.scopes.fresh)
    (·.release w.heaps.fresh) w₀
  · exact hend ▸ hmade.trans hes
  · exact hend ▸ (hmade.trans hes).release (Nat.le_refl _)

end Run.Passes

end ScriptModules
