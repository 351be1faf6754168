import ScriptModules.Module.Run
import ScriptModules.Proofs.Effects
import ScriptModules.Proofs.Inquiries
import ScriptModules.Proofs.Runs

/-!
# What is written to objects

There is one way to change an object, which is to write one of its properties, and one way to raise a
flag, which is to write to an object that it watches. A way from one world to another is told by the
properties that are written on it, in order (`World.Writes`); between them nothing happens to objects
and flags but that new ones are made, and a flag watches only what is made with it
(`World.Unwritten`). A run writes if it makes such a way from every world (`Run.Writes`).

Making the exports of a module is one step here and not three. Between the flag and the objects that
it watches there is a world in which a new object is watched by a flag that is there already.
-/

namespace ScriptModules

/-- A property that is written: of which object, under which key, and with which value. -/
structure PropertyWrite where
  object : Ref .object
  key : String
  value : Value

namespace Exports

variable (w : World)

/-- The object that `exports` is at first, if it is made in the world. -/
def initialIn : Object := { watch := some ⟨none, w.flags.fresh⟩ }

/-- The object `module` that is made after it. -/
def holderIn : Object where
  properties := .ofList [(key, .object w.objects.fresh)]
  watch := some ⟨some key, w.flags.fresh⟩

theorem fresh_apply {ε : Type} : (fresh : Run ε Exports) w =
    (.done ⟨(w.objects.add (initialIn w)).fresh, w.objects.fresh, w.flags.fresh⟩,
      { w with
        flags := w.flags.add false
        objects := (w.objects.add (initialIn w)).add (holderIn w) }) := rfl

end Exports

/-- Whether a watch tells of what is written under a key. -/
def Watch.tells (watch : Watch) (key : String) : Bool := watch.key.all (· = key)

namespace World

/-! ### One write -/

section

variable (w : World) (o : Ref .object) (key : String) (v : Value)

theorem objects_notify (watch : Option Watch) : (w.notify watch key).objects = w.objects := by
  rcases watch with _ | ⟨_ | k, f⟩
  · rfl
  · rfl
  · exact (apply_ite World.objects ..).trans (ite_self _)

/-- **A flag is raised by a watch of its own that tells of the key,** and by nothing else. -/
theorem get?_flags_notify (watch : Option Watch) (f : Ref .flag) :
    (w.notify watch key).flags.get? f =
      if watch.any fun x => x.flag = f && x.tells key then (w.flags.get? f).map fun _ => true
      else w.flags.get? f := by
  have raised : ∀ g : Ref .flag, (w.flags.set g true).get? f =
      if g = f then (w.flags.get? f).map fun _ => true else w.flags.get? f := fun g =>
    Table.get?_update w.flags g f _
  rcases watch with _ | ⟨_ | k, g⟩
  · rfl
  · simpa [notify, Watch.tells] using raised g
  · by_cases hk : k = key
    · simpa [notify, Watch.tells, hk] using raised g
    · simp [notify, Watch.tells, hk]

theorem size_flags_notify (watch : Option Watch) :
    (w.notify watch key).flags.size = w.flags.size := by
  rcases watch with _ | ⟨_ | k, f⟩
  · rfl
  · exact Table.size_update ..
  · change (if k = key then { w with flags := w.flags.set f true } else w).flags.size = _
    split
    · exact Table.size_update ..
    · rfl

/-- **A write changes the object that it is made to,** and no watch. -/
theorem get?_setProperty (o' : Ref .object) :
    (w.setProperty o key v).objects.get? o' =
      if o = o' then (w.objects.get? o').map fun x =>
        { x with properties := x.properties.insert key v }
      else w.objects.get? o' := by
  change ((w.notify _ key).objects.update o _).get? o' = _
  rw [Table.get?_update, objects_notify]

theorem watch_of_setProperty {o' : Ref .object} {x : Object}
    (hx : (w.setProperty o key v).objects.get? o' = some x) :
    ∃ y, w.objects.get? o' = some y ∧ y.watch = x.watch := by
  rw [get?_setProperty] at hx
  split at hx
  · obtain ⟨y, hy, rfl⟩ := Option.map_eq_some_iff.1 hx
    exact ⟨y, hy, rfl⟩
  · exact ⟨x, hx, rfl⟩

theorem size_flags_setProperty : (w.setProperty o key v).flags.size = w.flags.size :=
  w.size_flags_notify key _

end

/-! ### Ways from one world to another -/

/-- **Nothing was written:** all objects and flags are what they were. There may be new ones, and what
watches a new object is a new flag. -/
structure Unwritten (w w' : World) : Prop where
  objects : ∀ o x, w.objects.get? o = some x → w'.objects.get? o = some x
  flags : ∀ f b, w.flags.get? f = some b → w'.flags.get? f = some b
  count : w.flags.size ≤ w'.flags.size
  watches : ∀ o x watch, w'.objects.get? o = some x → x.watch = some watch →
    w.objects.get? o = some x ∨
      w.flags.size ≤ watch.flag.row ∧ watch.flag.row < w'.flags.size

/-- **From one world to another by writing properties,** in order. -/
inductive Writes (w : World) : List PropertyWrite → World → Prop
  | refl : Writes w [] w
  | other {ps : List PropertyWrite} {w₁ w₂ : World} : Writes w ps w₁ → w₁.Unwritten w₂ →
      Writes w ps w₂
  | write {ps : List PropertyWrite} {w₁ : World} (p : PropertyWrite) : Writes w ps w₁ →
      Writes w (ps ++ [p]) (w₁.setProperty p.object p.key p.value)

/-- The world is reached from another by writing properties. -/
def WritesTo (w w' : World) : Prop := ∃ ps, w.Writes ps w'

/-! ### Steps that write nothing -/

namespace Unwritten

variable {w w₁ w₂ : World}

/-- Other tables may change. -/
theorem of_same (h : w₁.objects = w.objects ∧ w₁.flags = w.flags) : w.Unwritten w₁ where
  objects o x hx := by rwa [h.1]
  flags f b hb := by rwa [h.2]
  count := Nat.le_of_eq (congrArg Table.size h.2).symm
  watches o x watch hx _ := .inl (by rwa [← h.1])

theorem refl (w : World) : w.Unwritten w := of_same ⟨rfl, rfl⟩

theorem trans (h : w.Unwritten w₁) (h' : w₁.Unwritten w₂) : w.Unwritten w₂ where
  objects o x hx := h'.objects o x (h.objects o x hx)
  flags f b hb := h'.flags f b (h.flags f b hb)
  count := Nat.le_trans h.count h'.count
  watches o x watch hx hwatch := by
    rcases h'.watches o x watch hx hwatch with hold | ⟨hnew, hexist⟩
    · exact (h.watches o x watch hold hwatch).imp_right fun hnew =>
        ⟨hnew.1, Nat.lt_of_lt_of_le hnew.2 h'.count⟩
    · exact .inr ⟨Nat.le_trans h.count hnew, hexist⟩

/-- An object that is not watched. -/
theorem addObject (w : World) {y : Object} (hy : y.watch = none) :
    w.Unwritten { w with objects := w.objects.add y } :=
  { refl w with
    objects := fun _ _ => Table.get?_add_of_get?_eq_some y
    watches := fun o x watch hx hwatch => by
      rw [Table.get?_add] at hx
      split at hx
      · obtain rfl := Option.some.inj hx
        cases hy.symm.trans hwatch
      · exact .inl hx }

/-- The exports of a module are made together with the flag that watches them. -/
theorem freshExports {ε : Type} (w : World) : w.Unwritten ((Exports.fresh : Run ε Exports) w).2 where
  objects o x hx := Table.get?_add_of_get?_eq_some _ (Table.get?_add_of_get?_eq_some _ hx)
  flags f b hb := Table.get?_add_of_get?_eq_some false hb
  count := (Table.size_add w.flags false).symm ▸ Nat.le_succ _
  watches o x watch hx hwatch := by
    have hnew : watch.flag = w.flags.fresh → w.flags.size ≤ watch.flag.row ∧
        watch.flag.row < (w.flags.add false).size := by
      rintro hflag
      rw [hflag, Table.size_add]
      exact ⟨Nat.le_refl _, Nat.lt_succ_self _⟩
    rw [Exports.fresh_apply, Table.get?_add, Table.get?_add] at hx
    split at hx
    · obtain rfl := Option.some.inj hx
      exact .inr (hnew (congrArg Watch.flag (Option.some.inj hwatch)).symm)
    · split at hx
      · obtain rfl := Option.some.inj hx
        exact .inr (hnew (congrArg Watch.flag (Option.some.inj hwatch)).symm)
      · exact .inl hx

end Unwritten

/-- **Evaluation works on the same things:** only containers, gatherings, contexts, environments, what
the host keeps and the history may differ. -/
structure Still (w w' : World) : Prop where
  eq : w' = { w with
    containers := w'.containers
    gatherings := w'.gatherings
    contexts := w'.contexts
    environments := w'.environments
    host := w'.host
    history := w'.history }

namespace Still

variable {w w' : World} (h : w.Still w')

include h

theorem spares : w.Spares w' := by
  rw [h.eq]
  exact .of_same rfl rfl rfl rfl rfl rfl

theorem unwritten : w.Unwritten w' := by
  rw [h.eq]
  exact .of_same ⟨rfl, rfl⟩

end Still

namespace Writes

variable {w w₁ w₂ : World} {ps ps' : List PropertyWrite}

theorem of_unwritten (h : w.Unwritten w₁) : w.Writes [] w₁ := .other .refl h

theorem trans (h : w.Writes ps w₁) (h' : w₁.Writes ps' w₂) : w.Writes (ps ++ ps') w₂ := by
  -- the second part goes on at its end, so the induction is on that
  induction h' with
  | refl => rwa [List.append_nil]
  | other _ hu ih => exact ih.other hu
  | write p _ ih =>
    rw [← List.append_assoc]
    exact ih.write p

end Writes

end World

/-! ### Watches -/

/-- **No watch dangles:** what watches an object is a flag that there is. -/
def World.Watchful (w : World) : Prop :=
  ∀ o x watch, w.objects.get? o = some x → x.watch = some watch → watch.flag.row < w.flags.size

namespace World.Watchful

variable {w w' : World}

theorem empty : World.empty.Watchful := fun _ _ _ hx => absurd hx nofun

theorem unwritten (h : w.Watchful) (hu : w.Unwritten w') : w'.Watchful := by
  intro o x watch hx hwatch
  rcases hu.watches o x watch hx hwatch with hold | ⟨-, hexist⟩
  · exact Nat.lt_of_lt_of_le (h o x watch hold hwatch) hu.count
  · exact hexist

theorem setProperty (h : w.Watchful) (o : Ref .object) (key : String) (v : Value) :
    (w.setProperty o key v).Watchful := by
  intro o' x watch hx hwatch
  obtain ⟨y, hy, hsame⟩ := w.watch_of_setProperty o key v hx
  rw [w.size_flags_setProperty o key v]
  exact h o' y watch hy (hsame.trans hwatch)

/-- **Writing leaves no watch dangling.** -/
theorem writes (h : w.Watchful) {ps : List PropertyWrite} (hps : w.Writes ps w') :
    w'.Watchful := by
  induction hps with
  | refl => exact h
  | other _ hu ih => exact ih.unwritten hu
  | write p _ ih => exact ih.setProperty p.object p.key p.value

end World.Watchful

/-! ### Runs that write -/

/-- **A run that does no more to objects and flags than writing properties,** from every world. -/
def Run.Writes {ε α : Type} (x : Run ε α) : Prop :=
  ∀ start : World, Run.Keeps start.WritesTo start.WritesTo x

namespace Run.Writes

variable {ε ε' α β : Type} {x : Run ε α}

theorem reaches (h : x.Writes) (w : World) : ∃ ps, w.Writes ps (x w).2 :=
  Run.Leads.of_all (h w) ⟨[], .refl⟩

theorem of_reached (h : ∀ w : World, w.WritesTo (x w).2) : x.Writes := fun _ =>
  Run.Leads.of_reached fun w ⟨ps, hps⟩ =>
    let ⟨ps', hps'⟩ := h w
    ⟨ps ++ ps', hps.trans hps'⟩

theorem of_unwritten (h : ∀ w : World, w.Unwritten (x w).2) : x.Writes :=
  of_reached fun w => ⟨[], .of_unwritten (h w)⟩

/-- Objects and flags are left alone. -/
theorem of_same (h : ∀ w : World, (x w).2.objects = w.objects ∧ (x w).2.flags = w.flags) :
    x.Writes := of_unwritten fun w => .of_same (h w)

theorem pure {a : α} : (pure a : Run ε α).Writes := of_same fun _ => ⟨rfl, rfl⟩

theorem bind {f : α → Run ε β} (hx : x.Writes)
    (hf : ∀ a, (∃ w w', x w = (.done a, w')) → (f a).Writes) : (x >>= f).Writes := fun start =>
  Run.Keeps.bind_value (hx start) fun a ⟨w, w', _, hr⟩ => hf a ⟨w, w', hr⟩ start

theorem attempt (hx : x.Writes) : (Run.attempt x : Run ε' _).Writes := fun start =>
  Run.Keeps.attempt (hx start)

theorem mapError {g : ε → ε'} (hx : x.Writes) : (Run.mapError g x).Writes := fun start =>
  Run.Keeps.mapError (hx start)

/-- The world may be changed at the end, if the change alone writes. -/
theorem andAlways {g : World → World} (hx : x.Writes)
    (hg : (Run.change g : Run ε Unit).Writes) : (Run.andAlways x g).Writes := fun start =>
  Run.Keeps.andAlways (hx start) fun w hw => hg start w hw

theorem onFailure {g : ε → World → World} (hx : x.Writes)
    (hg : ∀ e, (Run.change (g e) : Run ε Unit).Writes) : (Run.onFailure g x).Writes := fun start =>
  Run.Keeps.onFailure (hx start) fun e w hw => hg e start w hw

/-! ### Operations -/

/-- **Writing a property** is what a way is made of. -/
theorem setProperty (o : Ref .object) (key : String) (v : Value) :
    (Run.change (·.setProperty o key v) : Run ε Unit).Writes :=
  of_reached fun _ => ⟨_, .write ⟨o, key, v⟩ .refl⟩

/-- Changing a list is no writing of properties. -/
theorem changeList (change : ListChange) (w : World) :
    (change.after w).objects = w.objects ∧ (change.after w).flags = w.flags := by
  obtain ⟨lists, hlists⟩ := change.after_eq w
  rw [hlists]
  exact ⟨rfl, rfl⟩

theorem setListMember (l : Ref .list) (key : String) (v : Value) :
    (Run.setListMember l key v).Writes := of_same (changeList (.write l key v))

theorem pushAll (l : Ref .list) (vs : Array Value) : (ListMethod.pushAll l vs).Writes :=
  of_same (changeList (.push l vs))

/-- A lazy cell is no object. -/
theorem realize_same (c : Ref .cell) (w : World) :
    ((Run.realize c : Run ε Value) w).2.objects = w.objects ∧
      ((Run.realize c : Run ε Value) w).2.flags = w.flags := by
  rcases hc : w.cells.get? c with _ | ⟨⟨t, context⟩ | ⟨name, v⟩, _ | v⟩
  · rw [show (Run.realize c : Run ε Value) w = (.done .undefined, w) by simp only [Run.realize, hc]]
    exact ⟨rfl, rfl⟩
  · rw [Run.realize_of_timer hc]
    exact ⟨rfl, rfl⟩
  · rw [Run.realize_of_value hc]
    exact ⟨rfl, rfl⟩
  · rw [Run.realize_of_host hc]
    exact ⟨rfl, rfl⟩
  · rw [Run.realize_of_value hc]
    exact ⟨rfl, rfl⟩

theorem realize (c : Ref .cell) : (Run.realize c : Run ε Value).Writes := of_same (realize_same c)

theorem get? (b : Bindings) (name : String) : (b.get? name : Run ε _).Writes := by
  unfold Bindings.get?
  split
  · exact .pure
  · rename_i e _
    refine .bind ?_ fun _ _ => .pure
    cases e with
    | value v => exact .pure
    | lazy c => exact realize c

/-- Variables are no properties, and what a name is bound to is found without writing. -/
theorem tryLookup (s : Ref .scope) (name : String) : (Run.tryLookup s name : Run ε _).Writes :=
  of_reached fun w => by
    unfold Run.tryLookup
    split
    · exact ⟨[], .refl⟩
    · split
      · exact (get? _ name).reaches w
      · exact ⟨[], .refl⟩

theorem assign (s : Ref .scope) (name : String) (v : Value) : (Run.assign s name v).Writes :=
  of_same fun w => by
    unfold Run.assign
    split
    · split <;> exact ⟨rfl, rfl⟩
    · exact ⟨rfl, rfl⟩

theorem release (h : Ref .heap) : (Run.change (·.release h) : Run ε Unit).Writes :=
  of_same fun w => by
    obtain ⟨table, htable⟩ := w.release_eq h
    rw [Run.change_apply, htable]
    exact ⟨rfl, rfl⟩

end Run.Writes

/-! ### Runs that write nothing -/

/-- **A run that has a value and writes nothing,** from every world. -/
def Run.Harmless {ε α : Type} (x : Run ε α) : Prop :=
  ∀ w, ∃ a w', x w = (.done a, w') ∧ w.Unwritten w'

namespace Run.Harmless

variable {ε α β : Type} {x : Run ε α}

theorem of_yields (hx : x.Yields) (hu : ∀ w : World, w.Unwritten (x w).2) : x.Harmless := fun w => by
  obtain ⟨a, w', hr⟩ := hx w
  have := hu w
  rw [hr] at this
  exact ⟨a, w', hr, this⟩

theorem yields (hx : x.Harmless) : x.Yields := fun w =>
  let ⟨a, w', hr, _⟩ := hx w
  ⟨a, w', hr⟩

theorem pure {a : α} : (pure a : Run ε α).Harmless := of_yields .pure .refl

theorem changeGet {g : World → α × World} (hg : ∀ w : World, w.Unwritten (g w).2) :
    (Run.changeGet g : Run ε α).Harmless := of_yields .changeGet hg

theorem bind {f : α → Run ε β} (hx : x.Harmless) (hf : ∀ a, (f a).Harmless) :
    (x >>= f).Harmless := fun w => by
  obtain ⟨a, w₁, hr, hu⟩ := hx w
  obtain ⟨b, w₂, hr', hu'⟩ := hf a w₁
  exact ⟨b, w₂, (Run.bind_of_done hr).trans hr', hu.trans hu'⟩

/-! ### What modules are given -/

theorem newFunction (f : Callable) : (Run.newFunction f : Run ε _).Harmless :=
  .changeGet fun _ => .of_same ⟨rfl, rfl⟩

theorem newObject {o : Object} (ho : o.watch = none) : (Run.newObject o : Run ε _).Harmless :=
  .changeGet fun w => .addObject w ho

theorem newCell (s : Supplier) : (Run.newCell s : Run ε _).Harmless :=
  .changeGet fun _ => .of_same ⟨rfl, rfl⟩

theorem realize (b : Binding) : (b.realize : Run ε Value).Harmless := by
  cases b with
  | value v => exact .pure
  | lazy c => exact of_yields (.realize c) fun w => .of_same (Writes.realize_same c w)

theorem toObject (b : Bindings) : (b.toObject : Run ε Value).Harmless := by
  have hall : ∀ entries, (Bindings.realizeAll entries : Run ε _).Harmless := by
    intro entries
    induction entries with
    | nil => exact .pure
    | cons e rest ih => exact .bind (realize e.2) fun _ => .bind ih fun _ => .pure
  exact .bind (hall _) fun _ => .bind (newObject rfl) fun _ => .pure

theorem extendProvided (context : Ref .context) (b : Bindings) (providers : List Provider) :
    (b.extendProvided context providers : Run ε _).Harmless := by
  have provide : ∀ p : Provider, (p.provide context : Run ε _).Harmless := by
    intro p
    cases p with
    | timing => exact .bind (newCell _) fun _ => .bind (newCell _) fun _ => .pure
    | host more =>
      exact .bind (of_yields .change fun _ => .of_same ⟨rfl, rfl⟩) fun _ => .pure
  induction providers generalizing b with
  | nil => exact .pure
  | cons p rest ih => exact .bind (provide p) fun _ => ih _

theorem newConsole (script : String) : (newConsole script : Run ε Value).Harmless := by
  have hmethods : ∀ methods, (newConsoleMethods script methods : Run ε _).Harmless := by
    intro methods
    induction methods with
    | nil => exact .pure
    | cons m rest ih => exact .bind (newFunction _) fun _ => .bind ih fun _ => .pure
  unfold ScriptModules.newConsole
  -- which methods the console has does not matter, and the table is long
  generalize consoleMethods = methods
  exact .bind (hmethods methods) fun _ => .bind (newObject rfl) fun _ => .pure

end Run.Harmless

end ScriptModules
