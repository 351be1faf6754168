import ScriptModules.Machine.Fuel
import ScriptModules.Proofs.Effects
import ScriptModules.Proofs.Runs
import ScriptModules.Proofs.Tidy
import ScriptModules.Proofs.Writings

/-!
# Conduct

Some laws of whole machines hang on single operations: on which names are looked up in a scope, or
on what is made into a function. `Conduct T R` says of a property `R` of runs that every operation
has it and that it is closed under the ways in which runs are put together. Then all that a machine
does has it; the induction that shows it is done once, here and in the module about machines that
follows.

Operations come in two sorts. Most of them neither read nor change a scope (`Run.Blind`), and `R`
has to hold of all of these at once; what else it may know of them is in `Run.Inert`. Those that do
touch scopes are few, and `R` has to hold of each; where one of them is given a name, it is a name
that the terms of the law allow.

The terms `T` of a law are what it takes for granted and keeps up: what `use` functions, module
tasks and environments there may be, and which names evaluation may mention (`Terms.Holds`).
-/

namespace ScriptModules

/-! ### Runs that do not touch scopes -/

/-- The world with other scopes. -/
def World.withScopes (w : World) (scopes : Table .scope Scope) : World :=
  { w with scopes := scopes }

/-- **The run neither reads nor changes a scope:** with other scopes it does the same. -/
def Run.Blind {ε α : Type} (x : Run ε α) : Prop :=
  ∀ w scopes, x (w.withScopes scopes) = ((x w).1, (x w).2.withScopes scopes)

namespace Value

variable (w : World) (scopes : Table .scope Scope)

theorem toNumberIn_withScopes (fuel : Nat) (v : Value) :
    toNumberIn (w.withScopes scopes) fuel v = toNumberIn w fuel v := by
  induction fuel generalizing v with
  | zero => cases v <;> rfl
  | succ fuel ih =>
    cases v with
    | list l =>
      unfold toNumberIn
      have hitems : (w.withScopes scopes).items l = w.items l := rfl
      rw [hitems]
      split
      · rfl
      · exact ih _
      · rfl
    | _ => rfl

theorem toTextIn_withScopes (fuel : Nat) (v : Value) :
    toTextIn (w.withScopes scopes) fuel v = toTextIn w fuel v := by
  induction fuel generalizing v with
  | zero => cases v <;> rfl
  | succ fuel ih =>
    cases v with
    | list l =>
      simp only [toTextIn, ih]
      rfl
    | _ => rfl

theorem toJsonIn_withScopes (fuel : Nat) (v : Value) :
    toJsonIn (w.withScopes scopes) fuel v = toJsonIn w fuel v := by
  induction fuel generalizing v with
  | zero => cases v <;> rfl
  | succ fuel ih =>
    cases v with
    | list l =>
      simp only [toJsonIn, ih]
      rfl
    | object o =>
      simp only [toJsonIn, ih]
      rfl
    | container c =>
      simp only [toJsonIn, ih]
      rfl
    | _ => rfl

theorem pictureIn_withScopes (fuel : Nat) (above : List Value) (v : Value) :
    pictureIn (w.withScopes scopes) fuel above v = pictureIn w fuel above v := by
  induction fuel generalizing above v with
  | zero => cases v <;> rfl
  | succ fuel ih =>
    cases v with
    | list l =>
      simp only [pictureIn, ih]
      rfl
    | object o =>
      simp only [pictureIn, ih]
      rfl
    | container c =>
      simp only [pictureIn, ih]
      rfl
    | _ => rfl

theorem looseEquals?_withScopes (a b : Value) :
    a.looseEquals? (w.withScopes scopes) b = a.looseEquals? w b := by
  have hnumber : ∀ v : Value, v.toNumber? (w.withScopes scopes) = v.toNumber? w := fun v =>
    toNumberIn_withScopes w scopes _ v
  unfold looseEquals?
  simp only [hnumber]

end Value

/-! ### The terms of a law -/

/-- **What a law admits:** sites of `use`, modules on a queue, environments, and the names that
evaluation may mention. -/
structure Terms where
  sites : UseSite → Prop
  modules : Ref .environment → Ref .context → ModuleSource → Bindings → Prop
  environments : Ref .environment → Environment → Prop
  names : String → Prop

/-- What evaluation does with a function is in order: all names are, or all that it mentions. -/
def Closure.Tidy (c : Closure) : Prop := (∀ x ∈ c.params, IsIdentifier x) ∧ c.body.Tidy

namespace Terms

variable (T : Terms)

/-- All names are admitted. -/
def Free : Prop := ∀ x, T.names x

/-- The functions that are admitted. -/
def callable : Callable → Prop
  | .closure c => T.Free ∨ c.Tidy
  | .use site => T.sites site
  | _ => True

/-- The tasks that are admitted. -/
def task : Task → Prop
  | .module r c source globals _ _ => T.modules r c source globals
  | _ => True

/-- **All that there is, is admitted:** the functions, the tasks that wait or have been started, and
the environments. -/
structure Holds (w : World) : Prop where
  functions : ∀ f x, w.functions.get? f = some x → T.callable x
  waiting : ∀ c t, t ∈ w.waitingTasks c → T.task t
  started : ∀ c t, .queue c (.started t) ∈ w.history → T.task t
  environments : ∀ r e, w.environment? r = some e → T.environments r e

/-- **What the terms of a law must agree on.** An identifier is a name like any other; a module that
a `use` finds may be put on its queue, and the `use` that a module is given is admitted. -/
structure Coherent : Prop where
  identifier : ∀ {x}, IsIdentifier x → T.names x
  load : ∀ {site e start dependency source}, T.sites site → T.environments site.environment e →
    (e.resolver.resolve start dependency).value = .ok source →
    T.modules site.environment site.context source (source.bindingsFrom site.globals)
  install : ∀ {r c source globals} this, T.modules r c source globals →
    T.sites ⟨r, c, source.bindingsFrom globals, this⟩

variable {T} {w w' : World}

/-- What is new is admitted, and the rest was there before. -/
theorem Holds.step (h : T.Holds w)
    (hf : ∀ f x, w'.functions.get? f = some x → w.functions.get? f = some x ∨ T.callable x)
    (hw : ∀ c t, t ∈ w'.waitingTasks c → t ∈ w.waitingTasks c ∨ T.task t)
    (hs : ∀ c t, .queue c (.started t) ∈ w'.history →
      .queue c (.started t) ∈ w.history ∨ T.task t)
    (he : w'.environments = w.environments) : T.Holds w' where
  functions f x hx := (hf f x hx).elim (h.functions f x) id
  waiting c t ht := (hw c t ht).elim (h.waiting c t) id
  started c t ht := (hs c t ht).elim (h.started c t) id
  environments r e hr := h.environments r e (by rwa [World.environment?, ← he])

/-- Nothing is new that a law speaks of. -/
structure Calm (w w' : World) : Prop where
  functions : w'.functions = w.functions
  waiting : ∀ c t, t ∈ w'.waitingTasks c → t ∈ w.waitingTasks c
  environments : w'.environments = w.environments
  started : ∀ c t, .queue c (.started t) ∈ w'.history → .queue c (.started t) ∈ w.history

/-- Other tables may change. -/
theorem Calm.of_same (hf : w'.functions = w.functions) (hc : w'.contexts = w.contexts)
    (he : w'.environments = w.environments) (hh : w'.history = w.history) : Calm w w' where
  functions := hf
  waiting c t ht := by rwa [World.waitingTasks, World.context?, hc] at ht
  environments := he
  started c t ht := by rwa [hh] at ht

theorem Calm.refl (w : World) : Calm w w := .of_same rfl rfl rfl rfl

theorem Holds.of_calm (h : T.Holds w) (hc : Calm w w') : T.Holds w' :=
  h.step (fun f x hx => .inl (by rwa [← hc.functions])) (fun c t ht => .inl (hc.waiting c t ht))
    (fun c t ht => .inl (hc.started c t ht)) hc.environments

theorem Calm.mark {m : Moment} (hm : ∀ c t, m ≠ .queue c (.started t)) (h : Calm w w') :
    Calm w (w'.mark m) where
  functions := h.functions
  waiting := h.waiting
  environments := h.environments
  started c t ht := by
    rcases List.mem_cons.1 ht with heq | ht
    · exact absurd heq.symm (hm c t)
    · exact h.started c t ht

/-- A context may change in anything but the tasks that wait on it. -/
theorem Calm.changeContext {f : Context → Context} (hf : ∀ x, (f x).queue = x.queue)
    (c : Ref .context) (h : Calm w w') : Calm w (w'.changeContext c f) where
  functions := h.functions
  waiting c' t ht := h.waiting c' t (by rwa [World.waitingTasks_changeContext _ c c' hf] at ht)
  environments := h.environments
  started := h.started

/-- Releasing a heap empties scopes only. -/
theorem Calm.release (w : World) (h : Ref .heap) : Calm w (w.release h) := by
  obtain ⟨table, htable⟩ := w.release_eq h
  rw [htable]
  exact .of_same rfl rfl rfl rfl

end Terms

/-- A function that is admitted may be made. -/
theorem Terms.Holds.addFunction {T : Terms} {w : World} (h : T.Holds w) {f : Callable}
    (hf : T.callable f) : T.Holds { w with functions := w.functions.add f } := by
  refine h.step (fun r x hx => ?_) (fun _ _ => .inl) (fun _ _ => .inl) rfl
  rw [Table.get?_add] at hx
  split at hx
  · obtain rfl := Option.some.inj hx
    exact .inr hf
  · exact .inl hx

/-- **A world has kept what another had:** the environments are the same, and each function is still
there. -/
structure World.Retains (w w' : World) : Prop where
  environments : w'.environments = w.environments
  functions : ∀ f x, w.functions.get? f = some x → w'.functions.get? f = some x

namespace World.Retains

variable {w w₁ w₂ : World}

theorem refl (w : World) : w.Retains w := ⟨rfl, fun _ _ => id⟩

theorem trans (h : w.Retains w₁) (h' : w₁.Retains w₂) : w.Retains w₂ :=
  ⟨h'.environments.trans h.environments, fun f x hx => h'.functions f x (h.functions f x hx)⟩

theorem of_calm (h : Terms.Calm w w₁) : w.Retains w₁ :=
  ⟨h.environments, fun f x hx => by rwa [h.functions]⟩

theorem addFunction (w : World) (f : Callable) :
    w.Retains { w with functions := w.functions.add f } :=
  ⟨rfl, fun _ _ => Table.get?_add_of_get?_eq_some f⟩

end World.Retains

/-- **A run that does not touch scopes,** keeps what there is, and adds nothing that is not
admitted. Its effects are those that a passage may have, and all that it does to objects is to write
properties. -/
structure Run.Inert (T : Terms) {ε α : Type} (x : Run ε α) : Prop where
  blind : x.Blind
  holds : ∀ w, T.Holds w → T.Holds (x w).2
  retains : ∀ w : World, w.Retains (x w).2
  passes : x.Passes
  writes : x.Writes

namespace Run.Inert

variable {T : Terms} {ε α β : Type}

theorem of_calm {x : Run ε α} (hx : x.Blind) (hc : ∀ w, Terms.Calm w (x w).2) (hp : x.Passes)
    (hw : x.Writes) : x.Inert T :=
  ⟨hx, fun w hw => hw.of_calm (hc w), fun w => .of_calm (hc w), hp, hw⟩

theorem pure {a : α} : (pure a : Run ε α).Inert T := of_calm (fun _ _ => rfl) .refl .pure .pure

theorem bind {x : Run ε α} {f : α → Run ε β} (hx : x.Inert T) (hf : ∀ a, (f a).Inert T) :
    (x >>= f).Inert T where
  blind w scopes := by
    rw [Run.bind_apply, Run.bind_apply, hx.blind w scopes]
    rcases x w with ⟨a | e | _, w'⟩
    · exact (hf a).blind w' scopes
    · rfl
    · rfl
  holds w hw := by
    have hw' := hx.holds w hw
    rw [Run.bind_apply]
    rcases hr : x w with ⟨a | e | _, w'⟩
    · rw [hr] at hw'
      exact (hf a).holds w' hw'
    · rwa [hr] at hw'
    · rwa [hr] at hw'
  retains w := by
    have hretains := hx.retains w
    rw [Run.bind_apply]
    rcases hr : x w with ⟨a | e | _, w'⟩
    · rw [hr] at hretains
      exact hretains.trans ((hf a).retains w')
    · rwa [hr] at hretains
    · rwa [hr] at hretains
  passes := hx.passes.bind fun a _ => (hf a).passes
  writes := hx.writes.bind fun a _ => (hf a).writes

/-- A lazy cell makes a timer, or asks for a value of the host's. -/
theorem realizeCell (c : Ref .cell) : (Run.realize c : Run ε Value).Inert T := by
  refine ⟨fun w scopes => ?_, fun w hw => ?_, fun w => ?_, .realize c, .realize c⟩
  · have hsame : (w.withScopes scopes).cells.get? c = w.cells.get? c := rfl
    rcases hc : w.cells.get? c with _ | ⟨⟨t, x⟩ | ⟨name, v⟩, _ | v⟩ <;>
      simp only [Run.realize, hsame, hc] <;> rfl
  · rcases hc : w.cells.get? c with _ | ⟨⟨t, x⟩ | ⟨name, v⟩, _ | v⟩ <;>
      simp only [Run.realize, hc]
    · exact hw
    · exact (hw.addFunction (f := .timer t x) trivial).of_calm (.of_same rfl rfl rfl rfl)
    · exact hw
    · exact hw.of_calm (.of_same rfl rfl rfl rfl)
    · exact hw
  · rcases hc : w.cells.get? c with _ | ⟨⟨t, x⟩ | ⟨name, v⟩, _ | v⟩ <;>
      simp only [Run.realize, hc]
    · exact .refl w
    · exact (World.Retains.addFunction w (.timer t x)).trans (.of_calm (.of_same rfl rfl rfl rfl))
    · exact .refl w
    · exact .of_calm (.of_same rfl rfl rfl rfl)
    · exact .refl w

theorem realize (b : Binding) : (b.realize : Run ε Value).Inert T := by
  cases b with
  | value v => exact .pure
  | lazy c => exact realizeCell c

/-- What a name is bound to is found without looking at scopes. -/
theorem get? (b : Bindings) (name : String) : (b.get? name : Run ε _).Inert T := by
  unfold Bindings.get?
  split
  · exact .pure
  · exact .bind (realize _) fun _ => .pure

end Run.Inert

/-! ### Conducts -/

/-- **A property of runs that every operation has,** and that is closed under the ways in which runs
are put together. What is run after something else may take its value for one that there can be. -/
structure Conduct (T : Terms) (R : ∀ {ε α : Type}, Run ε α → Prop) : Prop where
  terms : T.Coherent
  inert : ∀ {ε α : Type} {x : Run ε α}, x.Inert T → R x
  bind : ∀ {ε α β : Type} {x : Run ε α} {f : α → Run ε β}, R x →
    (∀ a, (∃ w w', T.Holds w ∧ x w = (.done a, w')) → R (f a)) → R (x >>= f)
  attempt : ∀ {ε ε' α : Type} {x : Run ε α}, R x → R (Run.attempt x : Run ε' _)
  mapError : ∀ {ε ε' α : Type} {x : Run ε α} {g : ε → ε'}, R x → R (Run.mapError g x)
  andAlways : ∀ {ε α : Type} {x : Run ε α} {g : World → World}, R x →
    R (Run.change g : Run ε Unit) → R (Run.andAlways x g)
  onFailure : ∀ {ε α : Type} {x : Run ε α} {g : ε → World → World}, R x →
    (∀ e, R (Run.change (g e) : Run ε Unit)) → R (Run.onFailure g x)
  heapOf : ∀ {ε : Type} (s : Ref .scope), R (Run.read (·.heapOf s) : Run ε _)
  thisOf : ∀ {ε : Type} (s : Ref .scope), R (Run.read (·.thisOf s) : Run ε _)
  newRootScope : ∀ {ε : Type} (b : Bindings) (h : Ref .heap), R (Run.newRootScope b h : Run ε _)
  newInnerScope : ∀ {ε : Type} (parent : Ref .scope) (this : Option Value),
    R (Run.newInnerScope parent this : Run ε _)
  declare : ∀ {ε : Type} (s : Ref .scope) {x : String} (v : Value) (constant : Bool), T.names x →
    R (Run.declare s x v constant : Run ε Unit)
  tryLookup : ∀ {ε : Type} (s : Ref .scope) {x : String}, T.names x →
    R (Run.tryLookup s x : Run ε _)
  assign : ∀ (s : Ref .scope) {x : String} (v : Value), T.names x → R (Run.assign s x v)
  /-- A heap of its own is released at the end. -/
  onOwnHeap : ∀ {ε α : Type} (b : Bindings) {f : Ref .heap → Ref .scope → Run ε α},
    (∀ h s, R (f h s)) → R (do
      let h ← Run.newHeap
      let s ← Run.newRootScope b h
      Run.andAlways (f h s) (·.release h) : Run ε α)

namespace Conduct

variable {T : Terms} {R : ∀ {ε α : Type}, Run ε α → Prop} (C : Conduct T R) {ε ε' α β : Type}

include C

/-! ### Rules -/

/-- A name that a tidy tree mentions is admitted. -/
theorem name {x : String} (h : T.Free ∨ IsIdentifier x) : T.names x :=
  h.elim (fun hfree => hfree x) C.terms.identifier

/-- What is run next, whatever the value is. -/
theorem seq {x : Run ε α} {f : α → Run ε β} (hx : R x) (hf : ∀ a, R (f a)) : R (x >>= f) :=
  C.bind hx fun a _ => hf a

/-- A run that touches neither scopes nor anything that the law speaks of. -/
theorem calm {x : Run ε α} (hx : x.Blind) (hc : ∀ w, Terms.Calm w (x w).2) (hp : x.Passes)
    (hw : x.Writes) : R x :=
  C.inert (.of_calm hx hc hp hw)

/-- Besides, it leaves alone what evaluation works on. -/
theorem still {x : Run ε α} (hx : x.Blind) (hc : ∀ w, Terms.Calm w (x w).2)
    (hs : ∀ w : World, w.Still (x w).2) : R x :=
  C.calm hx hc (.of_spares fun w => (hs w).spares) (.of_unwritten fun w => (hs w).unwritten)

theorem pure {a : α} : R (pure a : Run ε α) := C.still (fun _ _ => rfl) .refl fun _ => ⟨rfl⟩

theorem fail {e : ε} : R (Run.fail e : Run ε α) := C.still (fun _ _ => rfl) .refl fun _ => ⟨rfl⟩

theorem exhausted : R (Run.exhausted : Run ε α) := C.still (fun _ _ => rfl) .refl fun _ => ⟨rfl⟩

theorem ofExcept {r : Except ε α} : R (Run.ofExcept r : Run ε α) := by
  cases r with
  | ok a => exact C.pure
  | error e => exact C.fail

theorem read {g : World → α} (hg : ∀ w scopes, g (w.withScopes scopes) = g w) :
    R (Run.read g : Run ε α) :=
  C.still (fun w scopes => congrArg (fun a => (Outcome.done a, w.withScopes scopes)) (hg w scopes))
    .refl fun _ => ⟨rfl⟩

/-- What is read is what a world has. -/
theorem bind_read {g : World → α} {f : α → Run ε β}
    (hg : ∀ w scopes, g (w.withScopes scopes) = g w)
    (hf : ∀ a, (∃ w, T.Holds w ∧ g w = a) → R (f a)) : R (Run.read g >>= f) := by
  refine C.bind (C.read hg) fun a ⟨w, w', hw, ha⟩ => hf a ⟨w, hw, ?_⟩
  obtain ⟨ha, -⟩ := Prod.mk.inj ha
  exact Outcome.done.inj ha

/-- The value of a result that is none of its errors. -/
theorem bind_ofExcept {r : Except ε α} {f : α → Run ε β} (hf : ∀ a, r = .ok a → R (f a)) :
    R (Run.ofExcept r >>= f) := by
  cases r with
  | ok a => exact C.bind C.pure fun a' ⟨_, _, _, ha⟩ => hf a' (by cases ha; rfl)
  | error e => exact C.bind C.fail fun a ⟨_, _, _, ha⟩ => by cases ha

theorem mark {m : Moment} (hm : ∀ c t, m ≠ .queue c (.started t)) : R (Run.mark m : Run ε Unit) :=
  C.still (fun _ _ => rfl) (fun w => (Terms.Calm.refl w).mark hm) fun _ => ⟨rfl⟩

theorem inName {script : String} {x : Script α} (hx : R x) : R (Run.inName script x) :=
  C.seq (C.mark nofun) fun _ => C.seq (C.attempt hx) fun _ => C.seq (C.mark nofun) fun _ =>
    C.ofExcept

theorem noticing {x : Script α} (hx : R x) : R (Run.noticing x) :=
  C.onFailure hx fun _ => C.mark nofun

theorem raising {f : Callable} {x : Script α} (hx : R x) : R (Run.raising f x) :=
  C.onFailure hx fun _ => C.mark nofun

theorem formOf {g : World → Option α} (hg : ∀ w scopes, g (w.withScopes scopes) = g w) :
    R (Run.formOf g : Run ε α) := by
  refine C.calm (fun w scopes => ?_) (fun w => ?_) (.of_spares fun w => ?_) (.of_same fun w => ?_)
  · unfold Run.formOf
    rw [hg w scopes]
    cases g w <;> rfl
  · unfold Run.formOf
    cases g w with
    | none => exact (Terms.Calm.refl w).mark nofun
    | some a => exact .refl w
  · unfold Run.formOf
    cases g w <;> exact .of_same rfl rfl rfl rfl rfl rfl
  · unfold Run.formOf
    cases g w <;> exact ⟨rfl, rfl⟩

/-! ### Making things -/

/-- An event other than that a supplier was asked. -/
theorem log {e : Event} (he : e.realized? = none) : R (Run.log e : Run ε Unit) :=
  C.calm (fun _ _ => rfl) (fun _ => .of_same rfl rfl rfl rfl) (.of_spares fun w => .note w he)
    (.of_same fun _ => ⟨rfl, rfl⟩)

theorem newList (items : Array Value) : R (Run.newList items : Run ε _) :=
  C.calm (fun _ _ => rfl) (fun _ => .of_same rfl rfl rfl rfl) (.of_spares fun w => .addList w items)
    (.of_same fun _ => ⟨rfl, rfl⟩)

/-- An object that is not watched. -/
theorem newObject {o : Object} (ho : o.watch = none) : R (Run.newObject o : Run ε _) :=
  C.calm (fun _ _ => rfl) (fun _ => .of_same rfl rfl rfl rfl)
    (.of_spares fun _ => .of_same rfl rfl rfl rfl rfl rfl) (.of_unwritten fun w => .addObject w ho)

theorem newCell (s : Supplier) : R (Run.newCell s : Run ε _) :=
  C.calm (fun _ _ => rfl) (fun _ => .of_same rfl rfl rfl rfl) (.of_spares fun w => .addCell w s)
    (.of_same fun _ => ⟨rfl, rfl⟩)

theorem newContainer (x : Container) : R (Run.newContainer x : Run ε _) :=
  C.still (fun _ _ => rfl) (fun _ => .of_same rfl rfl rfl rfl) fun _ => ⟨rfl⟩

theorem openGathering (n : Nat) (callback : Ref .function) (this : Value) (script : String) :
    R (Run.openGathering n callback this script : Run ε _) :=
  C.still (fun _ _ => rfl) (fun _ => Terms.Calm.mark nofun (.of_same rfl rfl rfl rfl)) fun _ => ⟨rfl⟩

/-- Timers are made by their suppliers only. -/
theorem newFunction {f : Callable} (hf : T.callable f) (ht : f.timer? = none) :
    R (Run.newFunction f : Run ε _) :=
  C.inert ⟨fun _ _ => rfl, fun _ hw => hw.addFunction hf, fun w => .addFunction w f,
    .of_spares fun w => .addFunction w ht, .of_same fun _ => ⟨rfl, rfl⟩⟩

/-! ### Lazy bindings -/

theorem realize (b : Binding) : R (b.realize : Run ε Value) := C.inert (.realize b)

theorem get? (b : Bindings) (name : String) : R (b.get? name : Run ε _) := C.inert (.get? b name)

theorem getText? (b : Bindings) (name : String) : R (b.getText? name : Run ε _) :=
  C.seq (C.get? b name) fun _ => C.pure

theorem realizeAll (entries : List (String × Binding)) :
    R (Bindings.realizeAll entries : Run ε _) := by
  induction entries with
  | nil => exact C.pure
  | cons e rest ih => exact C.seq (C.realize e.2) fun _ => C.seq ih fun _ => C.pure

theorem toObject (b : Bindings) : R (b.toObject : Run ε Value) :=
  C.seq (C.realizeAll _) fun _ => C.seq (C.newObject rfl) fun _ => C.pure

/-! ### Conversions, members and operators -/

theorem textOf (v : Value) : R (Run.textOf v : Run ε _) :=
  C.formOf fun w scopes => v.toTextIn_withScopes w scopes _

theorem numberOf (v : Value) : R (Run.numberOf v : Run ε _) :=
  C.formOf fun w scopes => v.toNumberIn_withScopes w scopes _

theorem jsonOf (v : Value) : R (Run.jsonOf v : Run ε _) :=
  C.formOf fun w scopes => v.toJsonIn_withScopes w scopes _

theorem pictureOf (v : Value) : R (Run.pictureOf v : Run ε _) :=
  C.read fun w scopes => v.pictureIn_withScopes w scopes _ _

theorem getTextMember (s key : String) : R (Run.getTextMember s key) := by
  unfold Run.getTextMember
  split
  · exact C.pure
  · split
    · split
      · exact C.pure
      · exact C.pure
    · split
      · exact C.seq (C.newFunction trivial rfl) fun _ => C.pure
      · exact C.pure

theorem getMember (v : Value) (key : String) : R (Run.getMember v key) := by
  cases v with
  | list l =>
    refine C.seq (C.read fun _ _ => rfl) fun items => ?_
    split
    · exact C.pure
    · split
      · exact C.pure
      · split
        · exact C.seq (C.newFunction trivial rfl) fun _ => C.pure
        · exact C.pure
  | text s => exact C.getTextMember s key
  | function f =>
    change R (if key = "name" then _ else _)
    split
    · exact C.read fun _ _ => rfl
    · exact C.pure
  | undefined => exact C.fail
  | null => exact C.fail
  | object o => exact C.read fun _ _ => rfl
  | _ => exact C.pure

omit C in
/-- Writing a property changes flags and objects only. -/
theorem setProperty_withScopes (w : World) (scopes : Table .scope Scope) (o : Ref .object)
    (key : String) (v : Value) :
    (w.withScopes scopes).setProperty o key v =
      { w.withScopes scopes with
        flags := (w.setProperty o key v).flags
        objects := (w.setProperty o key v).objects } := by
  have hobject : (w.withScopes scopes).object o = w.object o := rfl
  unfold World.setProperty
  rw [hobject]
  rcases (w.object o).watch with _ | ⟨_ | k, f⟩
  · rfl
  · rfl
  -- a watch on one property tells of that one only
  · unfold World.notify
    by_cases hk : k = key
    · simp only [if_pos hk]
      rfl
    · simp only [if_neg hk]
      rfl

theorem setListMember (l : Ref .list) (key : String) (v : Value) :
    R (Run.setListMember l key v) := by
  refine C.calm (fun w scopes => ?_) (fun w => ?_) (.setListMember l key v) (.setListMember l key v)
  · have hitems : (w.withScopes scopes).items l = w.items l := rfl
    unfold Run.setListMember
    cases parseIndex key with
    | none => rfl
    | some i =>
      dsimp only
      rw [hitems]
      split <;> rfl
  · obtain ⟨lists, hlists⟩ := ListChange.after_eq w (.write l key v)
    change Terms.Calm w (ListChange.after w (.write l key v))
    rw [hlists]
    exact .of_same rfl rfl rfl rfl

theorem setProperty (o : Ref .object) (key : String) (v : Value) :
    R (Run.setMember (.object o) key v) := by
  have hown (w : World) : w.setProperty o key v = _ := setProperty_withScopes w w.scopes o key v
  refine C.calm (fun w scopes => ?_) (fun w => ?_) (.of_spares fun w => ?_) (.setProperty o key v)
  · change (Outcome.done (), (w.withScopes scopes).setProperty o key v) =
      (Outcome.done (), (w.setProperty o key v).withScopes scopes)
    rw [setProperty_withScopes, hown w]
    rfl
  · change Terms.Calm w (w.setProperty o key v)
    rw [hown w]
    exact .of_same rfl rfl rfl rfl
  · change w.Spares (w.setProperty o key v)
    rw [hown w]
    exact .of_same rfl rfl rfl rfl rfl rfl

theorem setMember (target : Value) (key : String) (v : Value) :
    R (Run.setMember target key v) := by
  cases target with
  | list l => exact C.setListMember l key v
  | object o => exact C.setProperty o key v
  | undefined => exact C.fail
  | null => exact C.fail
  | _ => exact C.pure

theorem onNumbers (f : Float → Float → Float) (a b : Value) :
    R (BinaryOp.onNumbers f a b : Run ε _) :=
  C.seq (C.numberOf a) fun _ => C.seq (C.numberOf b) fun _ => C.pure

theorem addValues (a b : Value) : R (BinaryOp.addValues a b : Run ε _) := by
  unfold BinaryOp.addValues
  split
  · exact C.seq (C.textOf a) fun _ => C.seq (C.textOf b) fun _ => C.pure
  · exact C.onNumbers _ a b

theorem compareBy (texts : String → String → Bool) (numbers : Float → Float → Bool) (a b : Value) :
    R (BinaryOp.compareBy texts numbers a b : Run ε _) := by
  unfold BinaryOp.compareBy
  split
  · exact C.pure
  · exact C.seq (C.numberOf a) fun _ => C.seq (C.numberOf b) fun _ => C.pure

theorem loosely (a b : Value) : R (BinaryOp.loosely a b : Run ε _) :=
  C.formOf fun w scopes => a.looseEquals?_withScopes w scopes b

theorem apply (op : BinaryOp) (a b : Value) : R (op.apply a b : Run ε _) := by
  cases op with
  | add => exact C.addValues a b
  | subtract | multiply | divide | remainder => exact C.onNumbers _ a b
  | equal | notEqual => exact C.seq (C.loosely a b) fun _ => C.pure
  | strictlyEqual | strictlyUnequal => exact C.pure
  | lessThan | lessThanEqual | greaterThan | greaterThanEqual => exact C.compareBy _ _ a b

theorem combine (op : AssignOp) {current : Script Value} (v : Value) (h : R current) :
    R (op.combine current v) := by
  cases op with
  | set => exact C.pure
  | add | subtract => exact C.seq h fun _ => C.apply _ _ v

/-! ### Scopes -/

theorem lookup (s : Ref .scope) {x : String} (hx : T.names x) : R (Run.lookup s x) := by
  refine C.seq (C.tryLookup s hx) fun v => ?_
  cases v with
  | some v => exact C.pure
  | none => exact C.fail

theorem makeClosure (s : Ref .scope) (name : String) {params : List String} {body : Body}
    (isArrow : Bool) (h : T.Free ∨ ((∀ x ∈ params, IsIdentifier x) ∧ body.Tidy)) :
    R (makeClosure s name params body isArrow) :=
  C.seq (C.newFunction (f := .closure ⟨name, params, body, isArrow, s⟩) h rfl) fun _ => C.pure

theorem hoist (s : Ref .scope) {statements : List Stmt} (h : T.Free ∨ Stmt.AllTidy statements) :
    R (hoist s statements) := by
  induction statements with
  | nil => exact C.pure
  | cons stmt rest ih =>
    have hrest := ih (h.imp_right fun h => h.2)
    cases stmt with
    | function name params body =>
      have hstmt : T.Free ∨ (IsIdentifier name ∧ (∀ x ∈ params, IsIdentifier x) ∧
          Stmt.AllTidy body) := h.imp_right fun h => h.1
      exact C.seq (C.makeClosure s name false (hstmt.imp_right fun h => h.2)) fun f =>
        C.seq (C.declare s f false (C.name (hstmt.imp_right fun h => h.1))) fun _ => hrest
    | _ => exact hrest

theorem bindParams (s : Ref .scope) (arguments : Array Value) (i : Nat) {params : List String}
    (h : T.Free ∨ ∀ x ∈ params, IsIdentifier x) : R (bindParams s arguments i params) := by
  induction params generalizing i with
  | nil => exact C.pure
  | cons x rest ih =>
    exact C.seq (C.declare s _ false (C.name (h.imp_right fun h => h x List.mem_cons_self)))
      fun _ => ih (i + 1) (h.imp_right fun h y hy => h y (List.mem_cons_of_mem x hy))

omit C in
/-- The name under which a function finds its arguments. -/
theorem isIdentifier_arguments : IsIdentifier "arguments" :=
  ⟨⟨'a', "rguments".toList, by decide, by decide, List.all_eq_true.1 (by decide)⟩, by decide⟩

theorem bindArguments (s : Ref .scope) (arguments : Array Value) :
    R (bindArguments s arguments) :=
  C.seq (C.newList arguments) fun _ =>
    C.declare s _ false (C.terms.identifier isIdentifier_arguments)

/-! ### Built-in functions -/

theorem itemTexts (items : List Value) : R (Run.itemTexts items : Run ε _) := by
  induction items with
  | nil => exact C.pure
  | cons v rest ih =>
    refine C.seq ?_ fun _ => C.seq ih fun _ => C.pure
    unfold Run.itemText
    split
    · exact C.pure
    · exact C.textOf v

theorem consoleTexts (vs : List Value) : R (Run.consoleTexts vs : Run ε _) := by
  induction vs with
  | nil => exact C.pure
  | cons v rest ih =>
    refine C.seq ?_ fun _ => C.seq ih fun _ => C.pure
    unfold Run.consoleText
    split
    · exact C.pure
    · exact C.seq (C.jsonOf _) fun _ => C.pure
    · exact C.seq (C.jsonOf _) fun _ => C.pure
    · exact C.textOf v

theorem pushAll (l : Ref .list) (arguments : Array Value) : R (ListMethod.pushAll l arguments) := by
  refine C.calm (fun w scopes => ?_) (fun w => ?_) (.pushAll l arguments) (.pushAll l arguments)
  · have hitems : (w.withScopes scopes).items l = w.items l := rfl
    unfold ListMethod.pushAll
    dsimp only
    rw [hitems]
    split <;> rfl
  · obtain ⟨lists, hlists⟩ := ListChange.after_eq w (.push l arguments)
    change Terms.Calm w (ListChange.after w (.push l arguments))
    rw [hlists]
    exact .of_same rfl rfl rfl rfl

theorem joinItems (l : Ref .list) (separator : Option Value) :
    R (ListMethod.joinItems l separator) := by
  -- the separator is looked at first, and then the items
  have joined : ∀ s : String, R (do
      let items ← Run.read (·.items l)
      return Value.text (Text.joined s (← Run.itemTexts items.toList)) : Script Value) := fun s =>
    C.seq (C.read fun _ _ => rfl) fun _ => C.seq (C.itemTexts _) fun _ => C.pure
  unfold ListMethod.joinItems
  split
  · exact C.seq C.pure joined
  · exact C.seq C.pure joined
  · exact C.seq (C.textOf _) joined

theorem indexOfItem (l : Ref .list) (needle : Value) : R (ListMethod.indexOfItem l needle) := by
  refine C.seq (C.read fun _ _ => rfl) fun items => ?_
  split
  · exact C.pure
  · exact C.pure

theorem textMethod (m : TextMethod) (s : String) (arguments : Array Value) :
    R (m.invoke s arguments) := by
  cases m with
  | indexOf =>
    simp only [TextMethod.invoke]
    cases arguments[0]? with
    | none => exact C.pure
    | some v => exact C.seq (C.textOf v) fun _ => C.pure
  | _ => exact C.pure

theorem consoleMethod (m : ConsoleMethod) (script : String) (arguments : Array Value) :
    R (m.invoke script arguments) :=
  C.seq (C.consoleTexts _) fun _ => C.seq (C.log rfl) fun _ => C.pure

theorem hostFunction (h : HostFunction) (this : Value) (arguments : Array Value) :
    R (h.invoke this arguments) := by
  refine C.seq (C.pictureOf this) fun _ => C.seq (C.read fun w scopes => ?_) fun _ =>
    C.seq (C.log rfl) fun _ => ?_
  · exact List.map_congr_left fun v _ => v.pictureIn_withScopes w scopes _ _
  · split
    · exact C.fail
    · exact C.pure
    · exact C.pure

/-! ### Looking up modules -/

theorem callerIn (r : Resolver) (b : Bindings) (names : List String) :
    R (r.callerIn b names : Run ε _) := by
  induction names with
  | nil => exact C.pure
  | cons name rest ih =>
    refine C.seq (C.getText? b name) fun t => ?_
    split
    · exact C.pure
    · exact ih

theorem lookupContext (r : Resolver) (b : Bindings) : R (r.lookupContext b : Run ε _) :=
  C.seq (C.callerIn r b _) fun _ => C.seq (C.getText? b _) fun _ => C.pure

omit C in
/-- Notes of a resolver lengthen the log, in which they realize no name. -/
theorem foldl_note (notes : List Note) (w : World) :
    ∃ events, notes.foldl (fun w n => w.note (.resolver n)) w = { w with log := events } ∧
      (∀ scopes, notes.foldl (fun w n => w.note (.resolver n)) (w.withScopes scopes) =
        ({ w with log := events } : World).withScopes scopes) ∧
      events.filterMap Event.realized? = w.log.filterMap Event.realized? := by
  induction notes generalizing w with
  | nil => exact ⟨w.log, rfl, fun _ => rfl, rfl⟩
  | cons n rest ih =>
    obtain ⟨events, hevents, hscopes, hnames⟩ := ih (w.note (.resolver n))
    exact ⟨events, hevents, fun scopes => hscopes scopes, hnames⟩

theorem logNotes (notes : List Note) : R (Run.logNotes notes : Run ε Unit) := by
  refine C.calm (fun w scopes => ?_) (fun w => ?_) (.of_spares fun w => ?_) (.of_same fun w => ?_)
  · obtain ⟨events, hevents, hscopes, -⟩ := foldl_note notes w
    unfold Run.logNotes
    rw [Run.change_apply, Run.change_apply, hevents, hscopes scopes]
  · obtain ⟨events, hevents, -⟩ := foldl_note notes w
    unfold Run.logNotes
    rw [Run.change_apply, hevents]
    exact .of_same rfl rfl rfl rfl
  · obtain ⟨events, hevents, -, hnames⟩ := foldl_note notes w
    unfold Run.logNotes
    rw [Run.change_apply, hevents]
    exact { World.Spares.refl w with names := congrArg List.reverse hnames }
  · obtain ⟨events, hevents, -⟩ := foldl_note notes w
    unfold Run.logNotes
    rw [Run.change_apply, hevents]
    exact ⟨rfl, rfl⟩

theorem find (r : Resolver) (start : LookupContext) (dependency : String) :
    R (r.find start dependency) := by
  have hfind : r.find start dependency = (do
      Run.logNotes (r.resolve start dependency).notes
      Run.ofExcept (r.resolve start dependency).value) := rfl
  rw [hfind]
  exact C.seq (C.logNotes _) fun _ => C.ofExcept

theorem findAll (r : Resolver) (start : LookupContext) (dependencies : List String) :
    R (r.findAll start dependencies) := by
  induction dependencies with
  | nil => exact C.pure
  | cons d rest ih => exact C.seq (C.find r start d) fun _ => C.seq ih fun _ => C.pure

theorem dependencyNames (v : Value) : R (UseSite.dependencyNames v) := by
  have htexts : ∀ vs, R (UseSite.dependencyNames.textsOf vs) := by
    intro vs
    induction vs with
    | nil => exact C.pure
    | cons v rest ih => exact C.seq (C.textOf v) fun _ => C.seq ih fun _ => C.pure
  unfold UseSite.dependencyNames
  split
  · exact C.seq (C.read fun _ _ => rfl) fun _ => htexts _
  · exact C.seq (C.textOf _) fun _ => C.pure

theorem callbackOf (v : Value) : R (UseSite.callbackOf v) := by
  unfold UseSite.callbackOf
  split
  · exact C.pure
  · exact C.fail

theorem siteScript (site : UseSite) : R site.script :=
  C.seq (C.getText? _ _) fun _ => C.pure

/-- The environment of a site is one that is admitted. -/
theorem liveEnvironment (site : UseSite) {f : Environment → Hosted α}
    (hf : ∀ e, T.environments site.environment e → R (f e)) :
    R (site.liveEnvironment >>= f) := by
  refine C.bind ?_ fun e ⟨w, w', hw, he⟩ => hf e ?_
  · refine C.seq (C.read fun _ _ => rfl) fun e => ?_
    split
    · exact C.pure
    · exact C.fail
  · unfold UseSite.liveEnvironment at he
    rw [Run.bind_of_done (Run.read_apply _ _)] at he
    cases hkept : w.keptEnvironment? site.environment with
    | none =>
      rw [hkept] at he
      cases he
    | some kept =>
      rw [hkept] at he
      cases he
      exact hw.environments _ _ (Option.filter_eq_some_iff.1 hkept).1

/-- The context of a site, if it is alive. -/
theorem liveContext (site : UseSite) {f : Ref .context → Hosted α} (hf : R (f site.context)) :
    R (site.liveContext >>= f) := by
  refine C.bind ?_ fun c ⟨w, w', hw, hc⟩ => ?_
  · refine C.seq (C.read fun _ _ => rfl) fun alive => ?_
    split
    · exact C.pure
    · exact C.fail
  · unfold UseSite.liveContext at hc
    rw [Run.bind_of_done (Run.read_apply _ _)] at hc
    cases halive : w.isAlive site.context with
    | true =>
      rw [halive] at hc
      cases hc
      exact hf
    | false =>
      rw [halive] at hc
      cases hc

/-! ### Preparing a module -/

/-- The exports of a module are made in one go, since they are watched. -/
theorem freshExports : R (Exports.fresh : Run ε Exports) :=
  C.calm (fun _ _ => rfl) (fun _ => .of_same rfl rfl rfl rfl)
    (.of_spares fun _ => .of_same rfl rfl rfl rfl rfl rfl) (.of_unwritten .freshExports)

theorem provide (context : Ref .context) (p : Provider) : R (p.provide context : Run ε _) := by
  cases p with
  | timing => exact C.seq (C.newCell _) fun _ => C.seq (C.newCell _) fun _ => C.pure
  | host b => exact C.seq (C.log rfl) fun _ => C.pure

theorem extendProvided (context : Ref .context) (b : Bindings) (providers : List Provider) :
    R (b.extendProvided context providers : Run ε _) := by
  induction providers generalizing b with
  | nil => exact C.pure
  | cons p rest ih => exact C.seq (C.provide context p) fun _ => ih _

theorem newConsole (script : String) : R (newConsole script : Run ε Value) := by
  have hmethods : ∀ methods, R (newConsoleMethods script methods : Run ε _) := by
    intro methods
    induction methods with
    | nil => exact C.pure
    | cons m rest ih => exact C.seq (C.newFunction trivial rfl) fun _ => C.seq ih fun _ => C.pure
  unfold ScriptModules.newConsole
  -- which methods the console has does not matter, and the table is long
  generalize consoleMethods = methods
  exact C.seq (hmethods methods) fun _ => C.seq (C.newObject rfl) fun _ => C.pure

-- what uses a console needs only the lemma above; unfolding one makes all its methods
attribute [local irreducible] ScriptModules.newConsole

theorem moduleBindings (r : Ref .environment) (e : Environment) {context : Ref .context}
    {source : ModuleSource} {globals : Bindings} (arguments : Bindings) (x : Exports)
    (h : T.modules r context source globals) :
    R (e.moduleBindings r context source globals arguments x : Run ε _) :=
  C.seq (C.extendProvided context _ _) fun _ => C.seq (C.newConsole source.name) fun _ =>
    C.seq (C.toObject arguments) fun this =>
      C.seq (C.newFunction (f := .use _) (C.terms.install this h) rfl) fun _ =>
        C.seq (C.read fun _ _ => rfl) fun _ => C.pure

end Conduct

end ScriptModules
