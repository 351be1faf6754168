import ScriptModules.Proofs.ContainerLife
import ScriptModules.Proofs.Passages
import ScriptModules.Proofs.Use

/-!
# The results of modules

The result of a module is the value of its text. If that is nullish, what the module exports takes
its place, but only if the module has written to its exports: some property of the object that
`exports` is at first, or the property `exports` of the object `module`. How it came by the object
does not matter, nor which function it wrote from, now or by way of a callback.

All that a machine does to objects and flags is to write properties (`Machine.ofFuel_writes`), so the
evaluation of a module can be told by what it writes. `Exports.resultOf` is the result as it follows
from that list and the value of the text alone. That the flag is raised by such writes and by no
others, and that `module.exports` is what was last written there, is one induction along the writes
(`Exports.Watched.writes`); it rests on the flag watching the two objects and nothing else, which is
so because no watch dangles when the flag is made (`World.Watchful`).

Then `Machine.handOn` hands the result to the listener: at once, or when the container that it is has
a result (`Machine.HandsOn`). The main statement is `Machine.module_result_delivered`.
-/

namespace ScriptModules

/-! ### What machines write -/

/-- **Every operation writes properties,** or leaves objects and flags alone. -/
theorem Run.Writes.conduct : Conduct Terms.all fun x => Run.Writes x where
  terms := ⟨fun _ => trivial, fun _ _ _ => trivial, fun _ _ => trivial⟩
  inert hx := hx.writes
  bind hx hf := .bind hx fun a ⟨w, w', h⟩ => hf a ⟨w, w', Terms.holds_all w, h⟩
  attempt := .attempt
  mapError := .mapError
  andAlways := .andAlways
  onFailure := .onFailure
  heapOf _ := .of_same fun _ => ⟨rfl, rfl⟩
  thisOf _ := .of_same fun _ => ⟨rfl, rfl⟩
  newRootScope _ _ := .of_same fun _ => ⟨rfl, rfl⟩
  newInnerScope _ _ := .of_same fun _ => ⟨rfl, rfl⟩
  declare _ _ _ _ _ := .of_same fun _ => ⟨rfl, rfl⟩
  tryLookup s x _ := .tryLookup s x
  assign s x v _ := .assign s x v
  onOwnHeap _ _ hf := .bind (.of_same fun _ => ⟨rfl, rfl⟩) fun h _ =>
    .bind (.of_same fun _ => ⟨rfl, rfl⟩) fun s _ => .andAlways (hf h s) (.release h)

/-- **All that a machine does to objects and flags is to write properties.** -/
theorem Machine.ofFuel_writes (n : Nat) : (ofFuel n).Conducts fun x => Run.Writes x :=
  ofFuel_conducts Run.Writes.conduct n

/-- So is all that the text of a script does. -/
theorem Engine.evaluate_writes (n : Nat) (e : Engine) (script text : String) (b : Bindings) :
    (e.evaluate (Machine.ofFuel n).call script text b).Writes :=
  Run.Writes.conduct.evaluate (Machine.ofFuel_writes n).call e script text b

/-- And all that the host does. -/
theorem Deed.run_writes (n : Nat) (d : Deed) : (d.run (.ofFuel n)).Writes := by
  have C := Run.Writes.conduct
  have hm := Machine.ofFuel_writes n
  have admitted : ∀ t : Task, Terms.all.task t := fun t => by cases t <;> trivial
  cases d with
  | call f this arguments => exact C.seq (C.attempt (hm.call f this arguments)) fun _ => C.pure
  | evaluate p b =>
    exact C.seq (C.attempt (C.evaluateProgram hm.call (.inl Terms.free_all) b)) fun _ => C.pure
  | runModule r c source globals arguments =>
    exact C.seq (C.attempt (C.seq (C.newContainer _) fun _ =>
      C.seq (C.scheduleOn hm c (admitted _)) fun _ => C.pure)) fun _ => C.pure
  | schedule c t => exact C.seq (C.attempt (C.scheduleOn hm c (admitted t))) fun _ => C.pure
  | complete c v => exact C.seq (C.attempt (C.complete hm c v)) fun _ => C.pure
  | listen c l => exact C.seq (C.attempt (C.listen hm c l)) fun _ => C.pure
  | perform a => exact C.seq (C.attempt (C.perform hm a)) fun _ => C.pure
  | make b => exact C.seq (C.attempt (C.make b)) fun _ => C.pure

/-- **Whatever the host does, no watch dangles afterwards,** if none did before. -/
theorem Deed.run_watchful (n : Nat) (d : Deed) {w : World} (hw : w.Watchful) :
    (d.run (.ofFuel n) w).2.Watchful :=
  let ⟨_, hps⟩ := (d.run_writes n).reaches w
  hw.writes hps

/-! ### Exports that are watched -/

namespace Exports

variable (x : Exports)

/-- Whether a write is to the exported value, the property `exports` of `module`. -/
def replacedBy (p : PropertyWrite) : Bool := p.object = x.holder ∧ p.key = key

/-- **Whether a write is one to the exports:** to some property of what `exports` is at first, or to
`module.exports`. -/
def modifiedBy (p : PropertyWrite) : Bool := p.object = x.initial || x.replacedBy p

/-- **What `module.exports` is after some writes:** the value that was last written there, or what it
was before. -/
def exportedAfter (v : Value) (ps : List PropertyWrite) : Value :=
  ps.foldl (fun v p => if x.replacedBy p then p.value else v) v

/-- **The result of a module whose text has a value and has written some properties.** -/
def resultOf (ps : List PropertyWrite) (v : Value) : Value :=
  if v.isNullish && ps.any x.modifiedBy then x.exportedAfter (.object x.initial) ps else v

/-- **The flag watches the two objects,** as each of them needs, and nothing else. -/
structure Watched (w : World) : Prop where
  flag : x.modified.row < w.flags.size
  initial : ∃ y, w.objects.get? x.initial = some y ∧ y.watch = some ⟨none, x.modified⟩
  holder : ∃ y, w.objects.get? x.holder = some y ∧ y.watch = some ⟨some key, x.modified⟩
  alone : ∀ o y watch, w.objects.get? o = some y → y.watch = some watch →
    watch.flag = x.modified → o = x.initial ∨ o = x.holder

namespace Watched

variable {x} {w w' : World}

/-- Without a write both stay as they are. -/
theorem unwritten (h : x.Watched w) (hu : w.Unwritten w') :
    x.Watched w' ∧ x.isModified w' = x.isModified w ∧ x.current w' = x.current w := by
  obtain ⟨y, hy, hwatchy⟩ := h.initial
  obtain ⟨z, hz, hwatchz⟩ := h.holder
  refine ⟨⟨Nat.lt_of_lt_of_le h.flag hu.count, ⟨y, hu.objects _ y hy, hwatchy⟩,
    ⟨z, hu.objects _ z hz, hwatchz⟩, fun o a watch ha hwatch hflag => ?_⟩, ?_, ?_⟩
  · rcases hu.watches o a watch ha hwatch with hold | ⟨hnew, -⟩
    · exact h.alone o a watch hold hwatch hflag
    · exact absurd (hflag ▸ h.flag) (Nat.not_lt.2 hnew)
  · obtain ⟨b, hb⟩ := Table.exists_of_lt_size h.flag
    rw [isModified, isModified, hb, hu.flags _ b hb]
  · rw [current, current, World.object, World.object, hz, hu.objects _ z hz]

/-- **A write raises the flag if it is to the exports.** -/
theorem any_watch (h : x.Watched w) (p : PropertyWrite) :
    ((w.object p.object).watch.any fun watch => watch.flag = x.modified && watch.tells p.key) =
      x.modifiedBy p := by
  obtain ⟨y, hy, hwatchy⟩ := h.initial
  obtain ⟨z, hz, hwatchz⟩ := h.holder
  have hne : x.initial ≠ x.holder := fun heq => by
    rw [heq, hz] at hy
    obtain rfl := Option.some.inj hy
    cases hwatchz.symm.trans hwatchy
  by_cases hinitial : p.object = x.initial
  · simp [World.object, hinitial, hy, hwatchy, Watch.tells, modifiedBy]
  by_cases hholder : p.object = x.holder
  · simp [World.object, hholder, hz, hwatchz, Watch.tells, modifiedBy, replacedBy, hne.symm,
      eq_comm]
  -- what watches another object, if anything, raises another flag
  have hother : x.modifiedBy p = false := by simp [modifiedBy, replacedBy, hinitial, hholder]
  rw [hother]
  cases hwatch : (w.object p.object).watch with
  | none => rfl
  | some watch =>
    have hflag : watch.flag ≠ x.modified := fun hflag => by
      cases ha : w.objects.get? p.object with
      | none =>
        rw [World.object, ha] at hwatch
        cases hwatch
      | some a =>
        rw [World.object, ha] at hwatch
        exact (h.alone _ a watch ha hwatch hflag).elim hinitial hholder
    simp [hflag]

theorem isModified_setProperty (h : x.Watched w) (p : PropertyWrite) :
    x.isModified (w.setProperty p.object p.key p.value) =
      (x.isModified w || x.modifiedBy p) := by
  obtain ⟨b, hb⟩ := Table.exists_of_lt_size h.flag
  have hflag : (w.setProperty p.object p.key p.value).flags.get? x.modified =
      if x.modifiedBy p then some true else some b := by
    have := w.get?_flags_notify p.key (w.object p.object).watch x.modified
    rwa [h.any_watch p, hb] at this
  rw [isModified, isModified, hflag, hb]
  cases x.modifiedBy p <;> simp

theorem current_setProperty (h : x.Watched w) (p : PropertyWrite) :
    x.current (w.setProperty p.object p.key p.value) =
      if x.replacedBy p then p.value else x.current w := by
  obtain ⟨z, hz, -⟩ := h.holder
  rw [current, current, World.object, World.object, World.get?_setProperty]
  by_cases hholder : p.object = x.holder
  · by_cases hkey : p.key = key
    · simp [hholder, hz, hkey, replacedBy, OrderedMap.get?_insert]
    · simp [hholder, hz, hkey, replacedBy, OrderedMap.get?_insert]
  · simp [hholder, replacedBy]

theorem setProperty (h : x.Watched w) (p : PropertyWrite) :
    x.Watched (w.setProperty p.object p.key p.value) := by
  have kept : ∀ {o : Ref .object} {watch : Option Watch},
      (∃ y, w.objects.get? o = some y ∧ y.watch = watch) →
      ∃ y, (w.setProperty p.object p.key p.value).objects.get? o = some y ∧ y.watch = watch := by
    rintro o watch ⟨y, hy, hwatch⟩
    rw [World.get?_setProperty, hy]
    split
    · exact ⟨_, rfl, hwatch⟩
    · exact ⟨y, rfl, hwatch⟩
  refine ⟨?_, kept h.initial, kept h.holder, fun o y watch hy hwatch hflag => ?_⟩
  · rw [w.size_flags_setProperty p.object p.key p.value]
    exact h.flag
  · obtain ⟨z, hz, hsame⟩ := w.watch_of_setProperty p.object p.key p.value hy
    exact h.alone o z watch hz (hsame.trans hwatch) hflag

/-- **Along any writes** the flag is raised if one of them is to the exports, and `module.exports` is
what was last written there. -/
theorem writes (h : x.Watched w) {ps : List PropertyWrite} (hps : w.Writes ps w') :
    x.Watched w' ∧ x.isModified w' = (x.isModified w || ps.any x.modifiedBy) ∧
      x.current w' = x.exportedAfter (x.current w) ps := by
  induction hps with
  | refl => exact ⟨h, (Bool.or_false _).symm, rfl⟩
  | other _ hu ih =>
    obtain ⟨hwatched, hmodified, hcurrent⟩ := ih.1.unwritten hu
    exact ⟨hwatched, hmodified.trans ih.2.1, hcurrent.trans ih.2.2⟩
  | write p _ ih =>
    obtain ⟨hwatched, hmodified, hcurrent⟩ := ih
    refine ⟨hwatched.setProperty p, ?_, ?_⟩
    · rw [hwatched.isModified_setProperty p, hmodified, List.any_append, Bool.or_assoc,
        List.any_cons, List.any_nil, Bool.or_false]
    · rw [hwatched.current_setProperty p, hcurrent, exportedAfter, exportedAfter,
        List.foldl_append]
      rfl

end Watched

/-- **New exports are watched,** and nobody has written to them. -/
theorem fresh_watched {w : World} (hw : w.Watchful) :
    ∃ x w', (fresh : Hosted Exports) w = (.done x, w') ∧ x.Watched w' ∧ x.isModified w' = false ∧
      x.current w' = .object x.initial := by
  have hinitial : ((w.objects.add (initialIn w)).add (holderIn w)).get? w.objects.fresh =
      some (initialIn w) := Table.get?_add_of_get?_eq_some _ (Table.get?_add_fresh ..)
  have hholder := Table.get?_add_fresh (w.objects.add (initialIn w)) (holderIn w)
  refine ⟨_, _, fresh_apply w, ⟨?_, ⟨_, hinitial, rfl⟩, ⟨_, hholder, rfl⟩, ?_⟩, ?_, ?_⟩
  · rw [Table.size_add]
    exact Nat.lt_succ_self w.flags.size
  · intro o y watch hy hwatch hflag
    rw [Table.get?_add, Table.get?_add] at hy
    split at hy
    · next ho => exact .inr ho
    · split at hy
      · next ho => exact .inl ho
      -- a watch that was there before is on a flag that was there before
      · have hold := hw o y watch hy hwatch
        rw [hflag] at hold
        exact absurd hold (Nat.lt_irrefl w.flags.size)
  · exact congrArg (·.getD false) (Table.get?_add_fresh w.flags false)
  · rw [current, World.object, hholder]
    rfl

end Exports

/-! ### Before the text is evaluated -/

namespace Environment

variable (e : Environment) (r : Ref .environment) (context : Ref .context) (source : ModuleSource)
  (globals arguments : Bindings) (x : Exports)

/-- **The names of a module are made without writing,** and two of them lead to its exports. -/
theorem moduleBindings_harmless (w : World) :
    ∃ b w', (e.moduleBindings r context source globals arguments x : Hosted Bindings) w =
        (.done b, w') ∧ w.Unwritten w' ∧
      b.entries.get? "module" = some (.value (.object x.holder)) ∧
      b.entries.get? Exports.key = some (.value (.object x.initial)) := by
  have hextended : ((source.bindingsFrom globals).extendProvided context e.providers :
    Hosted _).Harmless := .extendProvided context _ _
  have hconsole : (newConsole source.name : Hosted _).Harmless := .newConsole source.name
  have hthis : (arguments.toObject : Hosted _).Harmless := .toObject arguments
  obtain ⟨extended, w₁, hextended, hu₁⟩ := hextended w
  obtain ⟨console, w₂, hconsole, hu₂⟩ := hconsole w₁
  obtain ⟨this, w₃, hthis, hu₃⟩ := hthis w₂
  unfold moduleBindings
  rw [Run.bind_of_done hextended, Run.bind_of_done hconsole, Run.bind_of_done hthis]
  refine ⟨_, _, rfl, hu₁.trans (hu₂.trans (hu₃.trans (.of_same ⟨rfl, rfl⟩))), ?_, ?_⟩ <;>
  simp [Bindings.put, Bindings.onHeap, OrderedMap.get?_insert, Exports.key]

end Environment

/-- **How the run of a module begins** in a world: its exports are made, then its names, and in the
world `start` its text is about to be evaluated against them. -/
structure Exports.Begins (x : Exports) (e : Environment) (r : Ref .environment)
    (context : Ref .context) (source : ModuleSource) (globals arguments : Bindings) (w : World)
    (b : Bindings) (start : World) : Prop where
  made : ∃ w₁ w₂, (fresh : Hosted Exports) w = (.done x, w₁) ∧
    (e.moduleBindings r context source globals arguments x : Hosted Bindings) w₁ = (.done b, w₂) ∧
    start = w₂.mark (.call (.begun source.name))
  /-- The name `module` leads to the one object, -/
  module : b.entries.get? "module" = some (.value (.object x.holder))
  /-- and the name `exports` to the other, -/
  exports : b.entries.get? key = some (.value (.object x.initial))
  /-- which is what `module.exports` is at first. -/
  current : x.current start = .object x.initial
  unmodified : x.isModified start = false
  watched : x.Watched start

/-- **Every module begins** with exports of its own. -/
theorem Exports.exists_begins (e : Environment) (r : Ref .environment) (context : Ref .context)
    (source : ModuleSource) (globals arguments : Bindings) {w : World} (hw : w.Watchful) :
    ∃ x b start, Begins x e r context source globals arguments w b start := by
  obtain ⟨x, w₁, hfresh, hwatched, hmodified, hcurrent⟩ := fresh_watched hw
  obtain ⟨b, w₂, hbindings, hunwritten, hmodule, hexports⟩ :=
    e.moduleBindings_harmless r context source globals arguments x w₁
  have hstart : w₁.Unwritten (w₂.mark (.call (.begun source.name))) :=
    hunwritten.trans (.of_same ⟨rfl, rfl⟩)
  obtain ⟨hwatched', hmodified', hcurrent'⟩ := hwatched.unwritten hstart
  exact ⟨x, b, _, ⟨w₁, w₂, hfresh, hbindings, rfl⟩, hmodule, hexports, hcurrent'.trans hcurrent,
    hmodified'.trans hmodified, hwatched'⟩

namespace Exports.Begins

variable {x : Exports} {e : Environment} {r : Ref .environment} {context : Ref .context}
  {source : ModuleSource} {globals arguments b : Bindings} {w start : World}
  (h : x.Begins e r context source globals arguments w b start)

include h

/-- What `module.exports` is later on is what was last written there. -/
theorem current_eq {ps : List PropertyWrite} {w' : World} (hps : start.Writes ps w') :
    x.current w' = x.exportedAfter (.object x.initial) ps := by
  rw [(h.watched.writes hps).2.2, h.current]

/-- **The result follows from what was written.** -/
theorem result_eq {ps : List PropertyWrite} {w' : World} (hps : start.Writes ps w') (v : Value) :
    x.result w' v = x.resultOf ps v := by
  rw [result, resultOf, h.current_eq hps, (h.watched.writes hps).2.1, h.unmodified, Bool.false_or]

/-- What a module comes to is what its text comes to, -/
theorem moduleValue_eq {m : Machine} {result : Except ScriptError Value} {w' : World}
    (hr : e.engine.evaluate m.call source.name source.content b start = Run.ofExcept result w') :
    e.moduleValue m r context source globals arguments w =
      Run.ofExcept ((result.mapError (HostError.ofScript source.name)).map (x.result w'))
        (w'.mark (.call (.ended source.name (Run.errorOf result)))) := by
  obtain ⟨w₁, w₂, hfresh, hbindings, rfl⟩ := h.made
  unfold Environment.moduleValue
  rw [Run.bind_of_done hfresh, Run.bind_of_done hbindings, Run.bind_apply, Run.inName_of_eq hr]
  cases result <;> rfl

/-- if that ends. -/
theorem moduleValue_exhausted {m : Machine} {w' : World}
    (hr : e.engine.evaluate m.call source.name source.content b start = (.exhausted, w')) :
    e.moduleValue m r context source globals arguments w = (.exhausted, w') := by
  obtain ⟨w₁, w₂, hfresh, hbindings, rfl⟩ := h.made
  unfold Environment.moduleValue
  rw [Run.bind_of_done hfresh, Run.bind_of_done hbindings]
  exact Run.bind_of_exhausted (Run.inName_exhausted hr)

end Exports.Begins

/-! ### The result is handed on -/

/-- **What may follow a world:** the host does one thing after the other, and queues are drained. -/
inductive World.Onward (w : World) : World → Prop
  | refl : Onward w w
  | act {w₁ w₂ : World} (n : Nat) (d : Deed) : Onward w w₁ →
      d.run (.ofFuel n) w₁ = (.done (), w₂) → Onward w w₂
  | drain {w₁ w₂ : World} (n : Nat) (c : Ref .context) (result : Except HostError Unit) :
      Onward w w₁ → (Machine.ofFuel n).drain c w₁ = Run.ofExcept result w₂ → Onward w w₂

/-- **A container lives on,** whatever follows. -/
theorem World.Onward.livesOn {c : Ref .container} {start : Glimpse} {w w' : World}
    (h : w.Onward w') (hw : LivesOn c start w) : LivesOn c start w' := by
  have L := life_lawful c
  induction h with
  | refl => exact hw
  | act n d _ hr ih =>
    exact (d.run_keeps L (Machine.ofFuel_keeps L n) start []).of_eq (r := .ok ()) ih hr
  | drain n c' result _ hr ih =>
    exact ((Machine.ofFuel_keeps L n).drain start [] c' trivial).of_eq ih hr

namespace Machine

/-- **How a result is handed to a listener** from a world on. -/
structure HandsOn (n : Nat) (l : Listener) (u : Value) (w : World)
    (run : Outcome HostError Unit × World) : Prop where
  /-- The listener is told at once what is no container. -/
  now : (∀ c, u ≠ .container c) → run = (ofFuel n).notify l u w
  /-- If a container has its result, the listener is told that. -/
  late : ∀ c v, u = .container c → w.container c = .resolved v →
    run = (do
      let result ← Run.attempt ((ofFuel n).notify l v)
      Run.mark (.container c (.answeredLate l result))
      Run.ofExcept result : Hosted Unit) (w.mark (.container c (.toldLate l v)))
  /-- If it has none, nothing happens yet, and the listener waits behind those that do already. From
  then on the container goes through what a container with these listeners goes through: when it
  takes its result, each of them is told in turn. -/
  waits : ∀ c ls, u = .container c → w.containers.get? c = some (.pending ls) →
    run = (.done (), w.await c ls l) ∧ ∀ w', (w.await c ls l).Onward w' →
      ∃ ms, w'.containerHistory c = (w.await c ls l).containerHistory c ++ ms ∧
        (Container.pending (ls ++ [l])).Grows ms (w'.container c)

/-- A result is handed on so. -/
theorem handOn_value (n : Nat) (l : Listener) (u : Value) (w : World) :
    HandsOn n l u w ((ofFuel n).handOn l (.ok u) w) where
  now hu := by
    cases u with
    | container c => exact absurd rfl (hu c)
    | _ => rfl
  late c v hu hc := by
    subst hu
    exact Run.addListener_resolved hc l
  waits c ls hu hc := by
    subst hu
    refine ⟨Run.addListener_pending (World.container_eq hc) l, fun w' hw' => ?_⟩
    have hawait : (w.await c ls l).containers.get? c = some (.pending (ls ++ [l])) :=
      World.get?_setContainer hc _
    have hstate := World.container_eq hawait
    have hlives := hw'.livesOn (LivesOn.glimpse (by rw [hawait, hstate]))
    obtain ⟨ms, hhistory, hgrows⟩ := hlives.grows
    exact ⟨ms, hhistory, by rwa [World.glimpse, hstate] at hgrows⟩

/-- **What running a module comes to,** if its text is evaluated in the world `start`. -/
structure Delivers (n : Nat) (source : ModuleSource) (x : Exports) (evaluation : Script Value)
    (start : World) (then_ : Listener) (run : Outcome HostError Unit × World) : Prop where
  /-- The evaluation writes some properties. -/
  wrote : ∃ ps, start.Writes ps (evaluation start).2
  /-- The value of `module.exports` is the last that was written there. -/
  exported : ∀ ps w, start.Writes ps w → x.current w = x.exportedAfter (.object x.initial) ps
  /-- **The listener is handed the result** that the text and the writes come to. -/
  value : ∀ v w ps, evaluation start = (.done v, w) → start.Writes ps w →
    HandsOn n then_ (x.resultOf ps v) (w.mark (.call (.ended source.name none))) run
  /-- After a fault it is not told anything, and waits for nothing. -/
  fault : ∀ err w, evaluation start = (.failed err, w) →
    run = (.failed (.ofScript source.name err),
      (w.mark (.call (.ended source.name (some err)))).forsake then_)
  /-- Nor is it if the evaluation does not end. -/
  cut : ∀ w, evaluation start = (.exhausted, w) → run = (.exhausted, w)

/-- **The result of a module is delivered.** -/
theorem module_result_delivered (n : Nat) {r : Ref .environment} {e : Environment}
    (context : Ref .context) (source : ModuleSource) (globals arguments : Bindings)
    (then_ : Listener) {w : World} (he : w.environment? r = some e) (hw : w.Watchful) :
    ∃ x b start, Exports.Begins x e r context source globals arguments w b start ∧
      Delivers n source x
        (e.engine.evaluate (ofFuel n).call source.name source.content b) start then_
        ((ofFuel n).evaluateModule r context source globals arguments then_ w) := by
  obtain ⟨x, b, start, hbegins⟩ :=
    Exports.exists_begins e r context source globals arguments hw
  -- the run hands on what the text comes to, if that ends
  have ran : ∀ (result : Except ScriptError Value) {w'},
      e.engine.evaluate (ofFuel n).call source.name source.content b start =
        Run.ofExcept result w' →
      (ofFuel n).evaluateModule r context source globals arguments then_ w =
        (ofFuel n).handOn then_ ((result.mapError (.ofScript source.name)).map (x.result w'))
          (w'.mark (.call (.ended source.name (Run.errorOf result)))) := fun _ _ hr =>
    evaluateModule_of_eq _ context source globals arguments then_ he (hbegins.moduleValue_eq hr)
  refine ⟨x, b, start, hbegins, (e.engine.evaluate_writes n _ _ b).reaches start,
    fun ps w' => hbegins.current_eq, fun v w' ps hv hps => ?_, fun err w' herr => ?_,
    fun w' hcut => ?_⟩
  · rw [ran (.ok v) hv, ← hbegins.result_eq hps]
    exact handOn_value ..
  · exact ran (.error err) herr
  · unfold evaluateModule
    rw [Run.bind_of_done (Run.read_apply _ _), he]
    exact Run.bind_of_exhausted (Run.attempt_exhausted (hbegins.moduleValue_exhausted hcut))

/-- A module that writes to `module.exports` under another name, from a function. -/
def renamingModule : ModuleSource :=
  ⟨"/page.js", "var m = module; function give() \x7b m.exports = 'a'; \x7d give(); null"⟩

/-- What it has put there is delivered. -/
theorem module_result_delivered_renamed :
    ∃ w, (ofFuel 9).evaluateModule ⟨0⟩ ⟨0⟩ renamingModule {} {} (.deliver .null none) .ofPage =
      (ofFuel 9).notify (.deliver .null none) (.text "a") w := by
  have he : World.ofPage.environment? ⟨0⟩ = some pageEnvironment := rfl
  have hwatchful : World.ofPage.Watchful := fun _ _ _ hx => absurd hx nofun
  obtain ⟨x, b, start, hbegins, hdelivers⟩ :=
    module_result_delivered 9 ⟨0⟩ renamingModule {} {} (.deliver .null none) he hwatchful
  obtain ⟨w₁, w₂, hfresh, hbound, hstart⟩ := hbegins.made
  have hends : (match (Exports.fresh : Hosted Exports) .ofPage with
      | (.done x, w₁) =>
        match (pageEnvironment.moduleBindings ⟨0⟩ ⟨0⟩ renamingModule {} {} x : Hosted _) w₁ with
        | (.done b, w₂) =>
          match pageEnvironment.engine.evaluate (ofFuel 9).call renamingModule.name
            renamingModule.content b (w₂.mark (.call (.begun renamingModule.name))) with
          | (.done v, w) => (x.result w v).asText?
          | _ => none
        | _ => none
      | _ => none) = some "a" := by decide +kernel
  simp only [hfresh, hbound, ← hstart] at hends
  split at hends
  · next v w hvalue =>
    obtain ⟨ps, hps⟩ := hdelivers.wrote
    rw [hvalue] at hps
    have hresult := hbegins.result_eq hps v
    rw [hresult] at hends
    have hhanded := hdelivers.value v w ps hvalue hps
    cases hu : x.resultOf ps v with
    | text s =>
      rw [hu] at hends hhanded
      obtain rfl := Option.some.inj hends
      exact ⟨_, hhanded.now nofun⟩
    | _ =>
      rw [hu] at hends
      cases hends
  · cases hends

end Machine

end ScriptModules
