import ScriptModules.Eval.Builtin
import ScriptModules.Module.Run
import ScriptModules.Proofs.Heaps
import ScriptModules.Proofs.Runs

/-!
# What scripts do on their own

Between two calls a script touches lists, objects, functions, scopes and lazy cells. It reaches
nothing that it shares with the host: containers, gatherings, contexts, environments, and the
history of all these stay as they are (`World.SameShared`). Nor does it change how deep calls are
nested, and what holds of every world that scripts run in (`World.Sound`) goes on to hold; together
this is `World.Inward`. Most of the time it does not touch scopes either and makes no closure; then
the change is `World.Quiet`.

Each function that calls nothing has one lemma here: `…_inward`, `…_quiet` if it leaves scopes alone,
or `…_aside` where it makes a function that may schedule, so that the world need not stay sound.
-/

namespace ScriptModules

/-- What becomes of a lazy cell that is read: nothing, or it takes a value, which is that of the host
if the host supplies it. -/
inductive Cell.Settles (x : Cell) : Cell → Prop
  | same : Settles x x
  | realized {v : Value} : x.value = none → (∀ name u, x.supplier = .host name u → v = u) →
      Settles x { x with value := some v }

theorem Cell.Settles.trans {x y z : Cell} (h : x.Settles y) (h' : y.Settles z) : x.Settles z := by
  cases h with
  | same => exact h'
  | realized hnone hv =>
    cases h' with
    | same => exact .realized hnone hv
    | realized hsome => cases hsome

namespace World

/-! ### What stays -/

/-- Scheduling on the context only puts the task at the end of the queue, or fails. -/
def OnlyEnqueues (w : World) (c : Ref .context) : Prop := w.isAlive c = true → w.isRunning c = true

/-- **The worlds that scripts run in:** every scope lies on a heap that exists, and the functions
that scripts can reach drain no queue. -/
structure Sound (w : World) : Prop where
  heaps : 0 < w.heaps.size
  scopes : ∀ s x, w.scopes.get? s = some x → x.heap.row < w.heaps.size
  timers : ∀ f t c, w.functions.get? f = some (.timer t c) → w.OnlyEnqueues c
  uses : ∀ f site, w.functions.get? f = some (.use site) → w.OnlyEnqueues site.context
  cells : ∀ i cell t c, w.cells.get? i = some cell → cell.supplier = .timer t c → w.OnlyEnqueues c

/-- What scripts and their host share is the same in both worlds. -/
structure SameShared (w w' : World) : Prop where
  containers : w'.containers = w.containers
  gatherings : w'.gatherings = w.gatherings
  contexts : w'.contexts = w.contexts
  environments : w'.environments = w.environments
  host : w'.host = w.host
  history : w'.history = w.history

/-- Lazy cells were at most read. -/
def CellsSettle (w w' : World) : Prop :=
  ∀ c x, w.cells.get? c = some x → ∃ y, w'.cells.get? c = some y ∧ x.Settles y

/-- No scope, no heap and no closure came of it, and none was changed. -/
structure Inert (w w' : World) : Prop where
  scopes : w'.scopes = w.scopes
  heaps : w'.heaps = w.heaps
  cells : w.CellsSettle w'
  closures : ∀ f c, w'.functions.get? f = some (.closure c) → w.functions.get? f = some (.closure c)

/-- Something was prepared that nothing else knows of yet. -/
structure Aside (w w' : World) : Prop extends SameShared w w', Inert w w'

/-- **Between the two worlds nothing was called,** and no scope was touched. -/
structure Quiet (w w' : World) : Prop extends Aside w w' where
  sound : w.Sound → w'.Sound

/-- **Between the two worlds nothing was called.** -/
structure Inward (w w' : World) : Prop extends SameShared w w' where
  heaps : w'.heaps.size = w.heaps.size
  depth : ∀ h, w'.depth h = w.depth h
  peak : ∀ h, w'.peak h = w.peak h
  cells : w.CellsSettle w'
  sound : w.Sound → w'.Sound

namespace SameShared

instance : Std.Refl SameShared := ⟨fun _ => ⟨rfl, rfl, rfl, rfl, rfl, rfl⟩⟩

instance : IsTrans World SameShared where
  trans _ _ _ h h' := ⟨h'.1.trans h.1, h'.2.trans h.2, h'.3.trans h.3, h'.4.trans h.4,
    h'.5.trans h.5, h'.6.trans h.6⟩

variable {w w' : World}

theorem context? (h : SameShared w w') (c : Ref .context) : w'.context? c = w.context? c := by
  rw [World.context?, World.context?, h.contexts]

theorem isRunning (h : SameShared w w') (c : Ref .context) : w'.isRunning c = w.isRunning c := by
  rw [World.isRunning, World.isRunning, h.context?]

theorem isAlive (h : SameShared w w') (c : Ref .context) : w'.isAlive c = w.isAlive c := by
  rw [World.isAlive, World.isAlive, h.context?, h.environments]

theorem onlyEnqueues (h : SameShared w w') {c : Ref .context} (hc : w.OnlyEnqueues c) :
    w'.OnlyEnqueues c := by
  unfold OnlyEnqueues at hc ⊢
  rwa [h.isAlive, h.isRunning]

end SameShared

namespace CellsSettle

variable {w w' w'' : World}

theorem of_same (h : w'.cells = w.cells) : w.CellsSettle w' := by
  intro c x hx
  exact ⟨x, by rw [h]; exact hx, .same⟩

theorem trans (h : w.CellsSettle w') (h' : w'.CellsSettle w'') : w.CellsSettle w'' := by
  intro c x hx
  obtain ⟨y, hy, hxy⟩ := h c x hx
  obtain ⟨z, hz, hyz⟩ := h' c y hy
  exact ⟨z, hz, hxy.trans hyz⟩

end CellsSettle

namespace Inert

instance : Std.Refl Inert := ⟨fun _ => ⟨rfl, rfl, .of_same rfl, fun _ _ => id⟩⟩

instance : IsTrans World Inert where
  trans _ _ _ h h' := ⟨h'.scopes.trans h.scopes, h'.heaps.trans h.heaps, h.cells.trans h'.cells,
    fun f c hc => h.closures f c (h'.closures f c hc)⟩

/-- A change that leaves scopes, heaps, functions and cells alone is inert. -/
theorem of_same {w w' : World} (hs : w'.scopes = w.scopes) (hh : w'.heaps = w.heaps)
    (hf : w'.functions = w.functions) (hc : w'.cells = w.cells) : Inert w w' :=
  ⟨hs, hh, .of_same hc, fun f c h => by rw [← hf]; exact h⟩

end Inert

namespace Aside

instance : Std.Refl Aside := ⟨fun _ => ⟨Std.Refl.refl _, Std.Refl.refl _⟩⟩

instance : IsTrans World Aside where
  trans _ _ _ h h' := ⟨IsTrans.trans _ _ _ h.toSameShared h'.toSameShared,
    IsTrans.trans _ _ _ h.toInert h'.toInert⟩

theorem of_same {w w' : World} (h : SameShared w w') (hs : w'.scopes = w.scopes)
    (hh : w'.heaps = w.heaps) (hf : w'.functions = w.functions) (hc : w'.cells = w.cells) :
    Aside w w' :=
  ⟨h, .of_same hs hh hf hc⟩

end Aside

namespace Quiet

instance : Std.Refl Quiet := ⟨fun _ => ⟨Std.Refl.refl _, id⟩⟩

instance : IsTrans World Quiet where
  trans _ _ _ h h' := ⟨IsTrans.trans _ _ _ h.toAside h'.toAside, fun s => h'.sound (h.sound s)⟩

end Quiet

namespace Inward

instance : Std.Refl Inward :=
  ⟨fun _ => ⟨Std.Refl.refl _, rfl, fun _ => rfl, fun _ => rfl, .of_same rfl, id⟩⟩

instance : IsTrans World Inward where
  trans _ _ _ h h' := ⟨IsTrans.trans _ _ _ h.toSameShared h'.toSameShared,
    h'.heaps.trans h.heaps, fun x => (h'.depth x).trans (h.depth x),
    fun x => (h'.peak x).trans (h.peak x), h.cells.trans h'.cells, fun s => h'.sound (h.sound s)⟩

end Inward

variable {w w' : World}

/-- What leaves heaps alone leaves depths alone. -/
theorem depth_of_same (h : w'.heaps = w.heaps) (x : Ref .heap) : w'.depth x = w.depth x := by
  rw [depth, depth, h]

theorem peak_of_same (h : w'.heaps = w.heaps) (x : Ref .heap) : w'.peak x = w.peak x := by
  rw [peak, peak, h]

theorem Quiet.inward (h : Quiet w w') : Inward w w' where
  toSameShared := h.toSameShared
  heaps := by rw [h.heaps]
  depth := depth_of_same h.heaps
  peak := peak_of_same h.heaps
  cells := h.cells
  sound := h.sound

/-- A world stays sound while scheduling goes on only to enqueue. -/
theorem Sound.of_same (s : w.Sound) (hh : w'.heaps.size = w.heaps.size) (hs : w'.scopes = w.scopes)
    (hf : w'.functions = w.functions) (hc : w'.cells = w.cells)
    (ho : ∀ c, w.OnlyEnqueues c → w'.OnlyEnqueues c) : w'.Sound where
  heaps := by rw [hh]; exact s.heaps
  scopes := by rw [hh, hs]; exact s.scopes
  timers := by rw [hf]; exact fun f t c e => ho c (s.timers f t c e)
  uses := by rw [hf]; exact fun f site e => ho _ (s.uses f site e)
  cells := by rw [hc]; exact fun i x t c e e' => ho c (s.cells i x t c e e')

/-- A change that leaves heaps, scopes, functions and cells alone is quiet. -/
theorem quiet_of_same (h : SameShared w w') (hh : w'.heaps = w.heaps) (hs : w'.scopes = w.scopes)
    (hf : w'.functions = w.functions) (hc : w'.cells = w.cells) : Quiet w w' where
  toSameShared := h
  toInert := .of_same hs hh hf hc
  sound s := s.of_same (by rw [hh]) hs hf hc fun _ => h.onlyEnqueues

theorem heapOf_lt (h : w.Sound) (s : Ref .scope) : (w.heapOf s).row < w.heaps.size := by
  unfold heapOf
  cases hs : w.scopes.get? s with
  | none => exact h.heaps
  | some x => exact h.scopes s x hs

theorem note_quiet (w : World) (e : Event) : Quiet w (w.note e) :=
  quiet_of_same ⟨rfl, rfl, rfl, rfl, rfl, rfl⟩ rfl rfl rfl rfl

theorem changeItems_quiet (w : World) (l : Ref .list) (f : Array Value → Array Value) :
    Quiet w (w.changeItems l f) :=
  quiet_of_same ⟨rfl, rfl, rfl, rfl, rfl, rfl⟩ rfl rfl rfl rfl

theorem setProperty_quiet (w : World) (o : Ref .object) (key : String) (v : Value) :
    Quiet w (w.setProperty o key v) := by
  unfold setProperty notify
  rcases (w.object o).watch with _ | ⟨_ | k, f⟩
  · exact quiet_of_same ⟨rfl, rfl, rfl, rfl, rfl, rfl⟩ rfl rfl rfl rfl
  · exact quiet_of_same ⟨rfl, rfl, rfl, rfl, rfl, rfl⟩ rfl rfl rfl rfl
  -- a watched object may tell of the change, which is an event and nothing more
  · by_cases hk : k = key
    · simp only [hk, if_true]
      exact quiet_of_same ⟨rfl, rfl, rfl, rfl, rfl, rfl⟩ rfl rfl rfl rfl
    · simp only [hk, if_false]
      exact quiet_of_same ⟨rfl, rfl, rfl, rfl, rfl, rfl⟩ rfl rfl rfl rfl

theorem setVariable_inward (w : World) (s : Ref .scope) (name : String) (v : Variable) :
    Inward w (w.setVariable s name v) where
  toSameShared := ⟨rfl, rfl, rfl, rfl, rfl, rfl⟩
  heaps := rfl
  depth _ := rfl
  peak _ := rfl
  cells := .of_same rfl
  sound h :=
    { heaps := h.heaps
      scopes := by
        intro r x hx
        rw [setVariable, Table.get?_update] at hx
        split at hx
        -- the scope keeps its heap
        · obtain ⟨y, hy, rfl⟩ := Option.map_eq_some_iff.mp hx
          exact h.scopes r y hy
        · exact h.scopes r x hx
      timers := h.timers
      uses := h.uses
      cells := h.cells }

end World

namespace Run

variable {ε : Type} [Faults ε]

/-! ### Making things -/

theorem log_quiet (e : Event) : Within World.Quiet (log e : Run ε Unit) :=
  .change fun w => w.note_quiet e

theorem newList_quiet (items : Array Value) : Within World.Quiet (newList items : Run ε _) :=
  .changeGet fun _ => World.quiet_of_same ⟨rfl, rfl, rfl, rfl, rfl, rfl⟩ rfl rfl rfl rfl

theorem newObject_quiet (o : Object) : Within World.Quiet (newObject o : Run ε _) :=
  .changeGet fun _ => World.quiet_of_same ⟨rfl, rfl, rfl, rfl, rfl, rfl⟩ rfl rfl rfl rfl

theorem newFlag_quiet : Within World.Quiet (newFlag : Run ε _) :=
  .changeGet fun _ => World.quiet_of_same ⟨rfl, rfl, rfl, rfl, rfl, rfl⟩ rfl rfl rfl rfl

end Run

namespace World

/-- A function that is no closure was made. -/
theorem addFunction_aside (w : World) (f : Callable) (hf : ∀ c, f ≠ .closure c) :
    Aside w { w with functions := w.functions.add f } where
  toSameShared := ⟨rfl, rfl, rfl, rfl, rfl, rfl⟩
  scopes := rfl
  heaps := rfl
  cells := .of_same rfl
  closures := by
    intro r c hr
    rw [Table.get?_add] at hr
    split at hr
    · exact absurd (Option.some.inj hr) (hf c)
    · exact hr

/-- A world stays sound if a function is made that drains no queue. -/
theorem Sound.addFunction {w : World} (h : w.Sound) {f : Callable}
    (ht : ∀ t c, f = .timer t c → w.OnlyEnqueues c) (hu : ∀ site, f ≠ .use site) :
    Sound { w with functions := w.functions.add f } where
  heaps := h.heaps
  scopes := h.scopes
  timers := by
    intro r t c hr
    rw [Table.get?_add] at hr
    split at hr
    · exact ht t c (Option.some.inj hr)
    · exact h.timers r t c hr
  uses := by
    intro r site hr
    rw [Table.get?_add] at hr
    split at hr
    · exact absurd (Option.some.inj hr) (hu site)
    · exact h.uses r site hr
  cells := h.cells

theorem addScope_inward (w : World) (s : Scope) (hs : w.Sound → s.heap.row < w.heaps.size) :
    Inward w (w.addScope s) where
  toSameShared := ⟨rfl, rfl, rfl, rfl, rfl, rfl⟩
  heaps := Table.size_update _ _ _
  depth h := (w.heap_addScope s h).1
  peak h := (w.heap_addScope s h).2
  cells := .of_same rfl
  sound h :=
    { heaps := by
        unfold addScope
        rw [Table.size_update]
        exact h.heaps
      scopes := by
        unfold addScope
        intro r x hr
        rw [Table.get?_add] at hr
        rw [Table.size_update]
        split at hr
        -- the new scope is the only one to be checked
        · rw [← Option.some.inj hr]
          exact hs h
        · exact h.scopes r x hr
      timers := h.timers
      uses := h.uses
      cells := h.cells }

/-- A cell without a value took one, which is that of the host if the host supplies it. -/
theorem setCell_quiet (w : World) {c : Ref .cell} {x : Cell} (hx : w.cells.get? c = some x)
    (hnone : x.value = none) {v : Value} (hv : ∀ name u, x.supplier = .host name u → v = u) :
    Quiet w { w with cells := w.cells.update c fun cell => { cell with value := some v } } where
  toSameShared := ⟨rfl, rfl, rfl, rfl, rfl, rfl⟩
  scopes := rfl
  heaps := rfl
  cells := by
    intro i y hy
    dsimp only
    rw [Table.get?_update]
    -- the cell itself settles, and the others stay as they were
    by_cases hi : c = i
    · subst hi
      obtain rfl : x = y := Option.some.inj (hx.symm.trans hy)
      rw [if_pos rfl, hx]
      exact ⟨_, rfl, .realized hnone hv⟩
    · rw [if_neg hi]
      exact ⟨y, hy, .same⟩
  closures _ _ := id
  sound h :=
    { heaps := h.heaps
      scopes := h.scopes
      timers := h.timers
      uses := h.uses
      cells := by
        intro i cell t x hi ht
        rw [Table.get?_update] at hi
        split at hi
        · obtain ⟨old, hold, rfl⟩ := Option.map_eq_some_iff.mp hi
          exact h.cells i old t x hold ht
        · exact h.cells i cell t x hi ht }

end World

namespace Run

variable {ε : Type} [Faults ε]

theorem newFunction_quiet {f : Callable} (hc : ∀ c, f ≠ .closure c) (ht : ∀ t c, f ≠ .timer t c)
    (hu : ∀ site, f ≠ .use site) : Within World.Quiet (newFunction f : Run ε _) :=
  .changeGet fun w =>
    { w.addFunction_aside f hc with
      sound := fun h => h.addFunction (fun t c e => absurd e (ht t c)) hu }

/-! ### Lazy bindings -/

/-- Asking the supplier of a cell makes a timer of a context that the cell already had. -/
theorem realize_quiet (c : Ref .cell) : Within World.Quiet (realize c : Run ε Value) := by
  intro w
  rcases hc : w.cells.get? c with _ | ⟨s, _ | v⟩
  · simp only [realize, hc]
    exact Std.Refl.refl w
  · simp only [realize, hc]
    cases s with
    | timer t x =>
      -- the context of the timer is that of the cell, which is sound
      have hf : World.Quiet w { w with functions := w.functions.add (.timer t x) } :=
        { w.addFunction_aside (.timer t x) nofun with
          sound := fun h => h.addFunction
            (fun t' x' e => by cases e; exact h.cells c _ t x hc rfl) nofun }
      exact IsTrans.trans _ _ _ hf (World.setCell_quiet
        { w with functions := w.functions.add (.timer t x) } hc rfl nofun)
    | host name v =>
      have hv : ∀ name' u, Supplier.host name v = .host name' u → v = u := by
        intro name' u h
        exact (Supplier.host.inj h).2
      exact IsTrans.trans _ _ _ (w.note_quiet (.realized name))
        (World.setCell_quiet (w.note (.realized name)) hc rfl hv)
  · simp only [realize, hc]
    exact Std.Refl.refl w

end Run

theorem Binding.realize_quiet {ε : Type} [Faults ε] (b : Binding) :
    Run.Within World.Quiet (b.realize : Run ε Value) := by
  cases b with
  | value v => exact .pure
  | lazy c => exact Run.realize_quiet c

namespace Bindings

variable {ε : Type} [Faults ε]

theorem get?_quiet (b : Bindings) (name : String) :
    Run.Within World.Quiet (b.get? name : Run ε _) := by
  unfold get?
  split
  · exact .pure
  · exact .bind (Binding.realize_quiet _) fun _ => .pure

theorem getText?_quiet (b : Bindings) (name : String) :
    Run.Within World.Quiet (b.getText? name : Run ε _) :=
  .bind (b.get?_quiet name) fun _ => .pure

theorem realizeAll_quiet (entries : List (String × Binding)) :
    Run.Within World.Quiet (realizeAll entries : Run ε _) := by
  induction entries with
  | nil => exact .pure
  | cons e rest ih =>
    exact .bind (Binding.realize_quiet e.2) fun _ => .bind ih fun _ => .pure

theorem toObject_quiet (b : Bindings) : Run.Within World.Quiet (b.toObject : Run ε Value) :=
  .bind (realizeAll_quiet _) fun _ => .bind (Run.newObject_quiet _) fun _ => .pure

end Bindings

namespace Run

variable {ε : Type} [Faults ε]

/-! ### Scopes -/

theorem inward_of_quiet {α : Type} {x : Run ε α} (h : Within World.Quiet x) :
    Within World.Inward x :=
  h.mono fun _ _ => World.Quiet.inward

theorem newInnerScope_inward (parent : Ref .scope) (this : Option Value) :
    Within World.Inward (newInnerScope parent this : Run ε _) :=
  fun w => w.addScope_inward _ fun h => w.heapOf_lt h parent

theorem declare_inward (s : Ref .scope) (name : String) (v : Value) (constant : Bool) :
    Within World.Inward (declare s name v constant : Run ε Unit) :=
  .change fun w => w.setVariable_inward s name _

theorem tryLookup_quiet (s : Ref .scope) (name : String) :
    Within World.Quiet (tryLookup s name : Run ε _) := by
  intro w
  unfold tryLookup
  cases w.declaration? s name with
  | some d => exact Std.Refl.refl w
  | none =>
    cases w.globalsOf s with
    | some b => exact b.get?_quiet name w
    | none => exact Std.Refl.refl w

theorem lookup_quiet (s : Ref .scope) (name : String) :
    Within World.Quiet (lookup s name) := by
  refine .bind (tryLookup_quiet s name) fun v => ?_
  cases v with
  | some v => exact .pure
  | none => exact .fail trivial

theorem assign_inward (s : Ref .scope) (name : String) (v : Value) :
    Within World.Inward (assign s name v) := by
  intro w
  unfold assign
  rcases w.declaration? s name with _ | ⟨r, x⟩
  · exact w.setVariable_inward _ name _
  · by_cases hx : x.constant = true
    · simp only [if_pos hx]
      exact ⟨trivial, Std.Refl.refl w⟩
    · simp only [if_neg hx]
      exact w.setVariable_inward r name _

theorem newClosure_inward (c : Closure) :
    Within World.Inward (newFunction (.closure c) : Run ε _) :=
  .changeGet fun _ =>
    { toSameShared := ⟨rfl, rfl, rfl, rfl, rfl, rfl⟩
      heaps := rfl
      depth := fun _ => rfl
      peak := fun _ => rfl
      cells := .of_same rfl
      sound := fun h => h.addFunction nofun nofun }

theorem makeClosure_inward (s : Ref .scope) (name : String) (params : List String) (body : Body)
    (isArrow : Bool) : Within World.Inward (makeClosure s name params body isArrow) :=
  .bind (newClosure_inward _) fun _ => .pure

theorem hoist_inward (s : Ref .scope) (statements : List Stmt) :
    Within World.Inward (hoist s statements) := by
  induction statements with
  | nil => exact .pure
  | cons stmt rest ih =>
    cases stmt with
    | function name params body =>
      exact .bind (makeClosure_inward s name params _ false) fun f =>
        .bind (declare_inward s name f false) fun _ => ih
    | _ => exact ih

theorem bindParams_inward (s : Ref .scope) (arguments : Array Value) (i : Nat)
    (params : List String) : Within World.Inward (bindParams s arguments i params) := by
  induction params generalizing i with
  | nil => exact .pure
  | cons x rest ih => exact .bind (declare_inward s x _ false) fun _ => ih (i + 1)

theorem bindArguments_inward (s : Ref .scope) (arguments : Array Value) :
    Within World.Inward (bindArguments s arguments) :=
  .bind (inward_of_quiet (newList_quiet arguments)) fun _ => declare_inward s _ _ false

/-! ### Members and operators -/

theorem textOf_quiet (v : Value) : Within World.Quiet (textOf v : Run ε _) := .formOf

theorem numberOf_quiet (v : Value) : Within World.Quiet (numberOf v : Run ε _) := .formOf

/-- Reading a member does nothing, or makes a method. -/
theorem getMember_within {R : World → World → Prop} [Std.Refl R] [IsTrans World R]
    (hlist : ∀ m l, Within R (newFunction (.listMethod m l) : Script _))
    (htext : ∀ m s, Within R (newFunction (.textMethod m s) : Script _)) (v : Value)
    (key : String) : Within R (getMember v key) := by
  cases v with
  | list l =>
    refine .bind .read fun items => ?_
    split
    · exact .pure
    · split
      · exact .pure
      · split
        · exact .bind (hlist _ l) fun _ => .pure
        · exact .pure
  | text s =>
    show Within R (getTextMember s key)
    unfold getTextMember
    split
    · exact .pure
    · split
      · split
        · exact .pure
        · exact .pure
      · split
        · exact .bind (htext _ s) fun _ => .pure
        · exact .pure
  | function f =>
    show Within R (if key = "name" then _ else _)
    split
    · exact .read
    · exact .pure
  | undefined => exact .fail trivial
  | null => exact .fail trivial
  | object o => exact .read
  | _ => exact .pure

theorem getMember_quiet (v : Value) (key : String) : Within World.Quiet (getMember v key) :=
  getMember_within (fun _ _ => newFunction_quiet nofun nofun nofun)
    (fun _ _ => newFunction_quiet nofun nofun nofun) v key

theorem setMember_quiet (target : Value) (key : String) (v : Value) :
    Within World.Quiet (setMember target key v) := by
  cases target with
  | list l =>
    show Within World.Quiet (setListMember l key v)
    unfold setListMember
    cases parseIndex key with
    | none => exact .pure
    | some i =>
      intro w
      -- beyond the limit nothing is set
      by_cases h : (w.items l).size ≤ i ∧ listLimit ≤ i
      · simp only [if_pos h]
        exact ⟨trivial, Std.Refl.refl w⟩
      · simp only [if_neg h]
        exact w.changeItems_quiet l _
  | object o => exact .change fun w => w.setProperty_quiet o key v
  | undefined => exact .fail trivial
  | null => exact .fail trivial
  | _ => exact .pure

end Run

/-! Operators change nothing at all. -/

section

variable {ε : Type} [Faults ε] {R : World → World → Prop} [Std.Refl R] [IsTrans World R]

namespace BinaryOp

theorem onNumbers_within (f : Float → Float → Float) (a b : Value) :
    Run.Within R (onNumbers f a b : Run ε _) :=
  .bind .formOf fun _ => .bind .formOf fun _ => .pure

theorem addValues_within (a b : Value) : Run.Within R (addValues a b : Run ε _) := by
  unfold addValues
  split
  · exact .bind .formOf fun _ => .bind .formOf fun _ => .pure
  · exact onNumbers_within _ a b

theorem compareBy_within (texts : String → String → Bool) (numbers : Float → Float → Bool)
    (a b : Value) : Run.Within R (compareBy texts numbers a b : Run ε _) := by
  unfold compareBy
  split
  · exact .pure
  · exact .bind .formOf fun _ => .bind .formOf fun _ => .pure

theorem apply_within (op : BinaryOp) (a b : Value) : Run.Within R (op.apply a b : Run ε _) := by
  cases op with
  | add => exact addValues_within a b
  | subtract | multiply | divide | remainder => exact onNumbers_within _ a b
  | equal | notEqual => exact .bind .formOf fun _ => .pure
  | strictlyEqual | strictlyUnequal => exact .pure
  | lessThan | lessThanEqual | greaterThan | greaterThanEqual => exact compareBy_within _ _ a b

end BinaryOp

theorem AssignOp.combine_within (op : AssignOp) {current : Script Value} (v : Value)
    (h : Run.Within R current) : Run.Within R (op.combine current v) := by
  cases op with
  | set => exact .pure
  | add | subtract => exact .bind h fun _ => BinaryOp.apply_within _ _ v

end

end ScriptModules
