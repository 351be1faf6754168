import ScriptModules.Proofs.Sessions

/-!
# Use calls back once

What a `use` of dependencies comes to. The call itself, made in a running task, opens a gathering,
puts one task for each module at the end of the queue, and runs nothing (`UseSite.invoke_opens`).
Each module hands its result to the slot that its task names (`Machine.runTask_brings`). Whatever
happens then, in whatever order the results arrive, the callback is called once with all of them
when the last one is there, and never if one of them does not come (`Gathering.Once`).
-/

namespace ScriptModules

/-! ### The call -/

namespace World

/-- The world with tasks put at the end of a queue in order. -/
def enqueueAll (w : World) (c : Ref .context) : List Task → World
  | [] => w
  | t :: rest => (w.enqueue c t).enqueueAll c rest

variable (c : Ref .context) (ts : List Task) (w : World)

theorem enqueueAll_gatherings : (w.enqueueAll c ts).gatherings = w.gatherings := by
  induction ts generalizing w with
  | nil => rfl
  | cons t rest ih => exact ih _

theorem enqueueAll_containers : (w.enqueueAll c ts).containers = w.containers := by
  induction ts generalizing w with
  | nil => rfl
  | cons t rest ih => exact ih _

theorem enqueueAll_history : (w.enqueueAll c ts).history =
    (ts.map fun t => Moment.queue c (.enqueued t)).reverse ++ w.history := by
  induction ts generalizing w with
  | nil => rfl
  | cons t rest ih =>
    rw [enqueueAll, ih, List.map_cons, List.reverse_cons, List.append_assoc]
    rfl

theorem waitingTasks_enqueueAll {c : Ref .context} {w : World} {x : Context}
    (h : w.context? c = some x) : (w.enqueueAll c ts).waitingTasks c = w.waitingTasks c ++ ts := by
  induction ts generalizing w x with
  | nil => exact (List.append_nil _).symm
  | cons t rest ih =>
    rw [enqueueAll, ih (context?_enqueue h t), waitingTasks_enqueue h, List.append_assoc]
    rfl

end World

namespace UseSite

variable (m : Machine) (site : UseSite)

/-- **The tasks of modules:** the result of each goes to its slot of the gathering. -/
def moduleTasks (g : Ref .gathering) (slot : Nat) (sources : List ModuleSource) : List Task :=
  (sources.zipIdx slot).map fun (source, k) =>
    .module site.environment site.context source (source.bindingsFrom site.globals) {} (.gather g k)

/-- Modules are only enqueued where the queue is being drained. -/
theorem runAll_running (g : Ref .gathering) (slot : Nat) (sources : List ModuleSource) {w : World}
    (h : w.isRunning site.context = true) :
    site.runAll m site.context g slot sources w =
      (.done (), w.enqueueAll site.context (site.moduleTasks g slot sources)) := by
  induction sources generalizing slot w with
  | nil => rfl
  | cons source rest ih =>
    unfold runAll Machine.runModule Machine.schedule
    rw [Run.bind_of_done (Run.schedule_running h)]
    -- a task more in the queue does not end the draining
    have hr : (w.enqueue site.context (.module site.environment site.context source
        (source.bindingsFrom site.globals) {} (.gather g slot))).isRunning site.context = true := by
      rw [World.isRunning_enqueue, h]
    exact ih (slot + 1) hr

/-- What a `use` finds out before it does anything: the modules of the dependencies, and the name
of its own. -/
def prepare (e : Environment) (d : Value) : Hosted (List ModuleSource × String) := do
  let names ← dependencyNames d
  let start ← e.resolver.lookupContext site.globals
  let sources ← e.resolver.findAll start names
  let script ← site.script
  return (sources, script)

/-- **What a call of `use` does to the world** in a running task: there is a new gathering with
empty slots, and a new container without a result; the modules wait at the end of the queue; and
nothing else has happened. -/
structure Opens (f : Ref .function) (script : String) (sources : List ModuleSource)
    (w w' : World) : Prop where
  gathering : w'.gatherings.get? w.gatherings.fresh =
    some (.empty sources.length f site.this script w.containers.fresh)
  container : w'.containers.get? w.containers.fresh = some (.pending [])
  queue : w'.waitingTasks site.context =
    w.waitingTasks site.context ++ site.moduleTasks w.gatherings.fresh 0 sources
  history : w'.history = ((site.moduleTasks w.gatherings.fresh 0 sources).map fun t =>
      Moment.queue site.context (.enqueued t)).reverse ++
    .gathering w.gatherings.fresh (.opened sources.length f site.this w.containers.fresh) ::
      w.history

section

variable {site} {e : Environment} {f : Ref .function} {script : String}
  {sources : List ModuleSource} {w w₁ : World}

theorem liveEnvironment_of_kept (he : w.keptEnvironment? site.environment = some e) :
    site.liveEnvironment w = (.done e, w) := by
  unfold liveEnvironment
  rw [Run.bind_of_done (Run.read_apply _ _), he]
  rfl

theorem liveContext_of_alive (ha : w.isAlive site.context = true) :
    site.liveContext w = (.done site.context, w) := by
  unfold liveContext
  rw [Run.bind_of_done (Run.read_apply _ _), ha]
  rfl

/-- The gathering is opened and the modules are enqueued. -/
theorem opens_enqueueAll {x : Context} (hx : w.context? site.context = some x)
    (hs : World.SameShared w w₁) :
    site.Opens f script sources w ((w₁.openGathering sources.length f site.this script).enqueueAll
      site.context (site.moduleTasks w₁.gatherings.fresh 0 sources)) := by
  -- looking up makes neither gatherings nor containers, so the new ones are the same
  have hg : w₁.gatherings.fresh = w.gatherings.fresh := by rw [hs.gatherings]
  have hc : w₁.containers.fresh = w.containers.fresh := by rw [hs.containers]
  have hx₁ : (w₁.openGathering sources.length f site.this script).context? site.context =
      some x := (hs.context? _).trans hx
  refine ⟨?_, ?_, ?_, ?_⟩
  · rw [World.enqueueAll_gatherings, World.get?_openGathering, if_pos hg.symm, hc]
  · rw [World.enqueueAll_containers, ← hc]
    exact Table.get?_add_fresh _ _
  · rw [World.waitingTasks_enqueueAll _ hx₁, World.waitingTasks_eq hx₁, World.waitingTasks_eq hx, hg]
  · rw [World.enqueueAll_history, ← hg, ← hc, ← hs.history]
    rfl

/-- **Calling `use` in a running task** answers the new container. -/
theorem invoke_opens {d : Value} {rest : List Value} {arguments : Array Value}
    (hargs : arguments.toList = d :: .function f :: rest)
    (he : w.keptEnvironment? site.environment = some e) (ha : w.isAlive site.context = true)
    (hr : w.isRunning site.context = true)
    (hp : site.prepare e d w = (.done (sources, script), w₁)) (hne : sources ≠ []) :
    ∃ w', site.invoke m arguments w = (.done (.container w.containers.fresh), w') ∧
      site.Opens f script sources w w' := by
  -- the steps of what is found out, with the worlds between them
  obtain ⟨names, w₂, hnames, hp⟩ := Run.exists_of_bind_done hp
  obtain ⟨start, w₃, hstart, hp⟩ := Run.exists_of_bind_done hp
  obtain ⟨found, w₄, hfound, hp⟩ := Run.exists_of_bind_done hp
  obtain ⟨name, w₅, hname, hp⟩ := Run.exists_of_bind_done hp
  obtain ⟨⟨rfl, rfl⟩, rfl⟩ : (found = sources ∧ name = script) ∧ w₅ = w₁ := by
    obtain ⟨h₁, rfl⟩ := Prod.mk.inj hp
    exact ⟨Prod.mk.inj (Outcome.done.inj h₁), rfl⟩
  -- looking up changes nothing that matters here
  have same : ∀ {α : Type} {x : Hosted α} {w w' : World} {a : α}, x.Within World.Quiet →
      x w = (.done a, w') → World.SameShared w w' := by
    intro α x w w' a hq hx
    have := hq w
    rw [hx] at this
    exact this.toSameShared
  have hs₂ : World.SameShared w w₂ := same (dependencyNames_quiet d) hnames
  have hs₅ : World.SameShared w₂ w₅ := IsTrans.trans _ _ _
    (same (e.resolver.lookupContext_quiet _) hstart) (IsTrans.trans _ _ _
      (same (e.resolver.findAll_quiet _ _) hfound) (same site.script_quiet hname))
  have hs : World.SameShared w w₅ := IsTrans.trans _ _ _ hs₂ hs₅
  have he₂ : w₂.keptEnvironment? site.environment = some e := by
    rw [← he, World.keptEnvironment?, World.keptEnvironment?, World.environment?,
      World.environment?, hs₂.environments]
  have ha₂ : w₂.isAlive site.context = true := (hs₂.isAlive _).trans ha
  obtain ⟨x, hx, _⟩ := World.exists_of_isRunning hr
  have hr₅ : (w₅.openGathering found.length f site.this name).isRunning site.context = true :=
    (hs.isRunning _).trans hr
  refine ⟨_, ?_, opens_enqueueAll hx hs⟩
  -- the modules of the names: found, gathered and enqueued
  have hmodules : site.useModules m names f w₂ = (.done w.containers.fresh,
      (w₅.openGathering found.length f site.this name).enqueueAll site.context
        (site.moduleTasks w₅.gatherings.fresh 0 found)) := by
    unfold useModules
    rw [Run.bind_of_done (liveEnvironment_of_kept he₂), Run.bind_of_done (liveContext_of_alive ha₂),
      Run.bind_of_done hstart, Run.bind_of_done hfound, Run.bind_of_done hname]
    show (site.runAll m site.context w₅.gatherings.fresh 0 found >>= fun _ =>
      pure w₅.containers.fresh) (w₅.openGathering found.length f site.this name) = _
    rw [Run.bind_of_done (site.runAll_running m _ 0 found hr₅), hs.containers]
    rfl
  -- the list of names is not empty, since modules have been found for it
  have happly : site.apply m arguments w = site.useModules m names f w₂ := by
    unfold apply
    rw [hargs]
    show (dependencyNames d >>= fun names => _) w = _
    rw [Run.bind_of_done hnames]
    cases names with
    | nil => exact absurd (Outcome.done.inj (Prod.mk.inj hfound).1).symm hne
    | cons => rfl
  have hmapped : Run.mapError ScriptError.host (site.apply m arguments) w =
      (.done w.containers.fresh, (w₅.openGathering found.length f site.this name).enqueueAll
        site.context (site.moduleTasks w₅.gatherings.fresh 0 found)) := by
    unfold Run.mapError
    rw [happly, hmodules]
  unfold invoke
  rw [Run.bind_of_done hmapped]
  rfl

end

end UseSite

/-! ### What modules bring -/

/-- What a view finds in a history, it finds in a longer one. -/
theorem prefix_of_longer {α : Type} {view : Moment → Option α} {past : List α} (m : Moment)
    (h : List Moment) (hp : past <+: (h.filterMap view).reverse) :
    past <+: ((m :: h).filterMap view).reverse := by
  rw [List.filterMap_cons]
  split
  · exact hp
  · rw [List.reverse_cons]
    exact hp.trans (List.prefix_append _ _)

/-- **A result that is told to a slot arrives there,** before anything else happens. -/
theorem Machine.gather_arrived (n : Nat) (g : Ref .gathering) (k : Nat) (v : Value) (w : World) :
    w.gatheringHistory g ++ [.arrived k v] <+: ((ofFuel n).gather g k v w).2.gatheringHistory g := by
  generalize hpast : w.gatheringHistory g ++ [.arrived k v] = past
  have hstart : past <+: (w.arrive g k v).gatheringHistory g := by
    refine ⟨[], (List.append_nil _).trans ?_⟩
    rw [World.gatheringHistory_arrive, hpast]
  cases hx : w.gatherings.get? g with
  -- without a gathering the arrival is all that happens
  | none =>
    rw [gather_none _ hx]
    exact hstart
  | some x =>
    rw [gather_eq _ hx]
    split
    -- a history only grows, so what it begins with stays, whether the callback ends or not
    · have S := @steady_of_history (fun h => past <+: (h.filterMap (Moment.ofGathering? g)).reverse)
        fun m h => prefix_of_longer m h
      have L := @lawful_of_history (fun h => past <+: (h.filterMap (Moment.ofGathering? g)).reverse)
        fun m h => prefix_of_longer m h
      have M := ofFuel_keeps L n
      exact (S.callGathered M (fun i c v => L.complete M i [] c v) () g _).of_all hstart
    · exact hstart

/-- What a value comes to as the result of a module: itself, or what the container took. -/
def World.settled? (w : World) : Value → Option Value
  | .container c => w.result? c
  | v => some v

/-- **What the task of a module brings** to a slot of a gathering from a world on, if `x` is what
the module itself does. -/
structure Task.Brings (m : Machine) (t : Task) (x : Hosted Value) (g : Ref .gathering) (k : Nat)
    (w : World) : Prop where
  /-- A result that is there arrives at once. -/
  now : ∀ v u w', x w = (.done v, w') → w'.settled? v = some u →
    w'.gatheringHistory g ++ [.arrived k u] <+: (m.runTask t w).2.gatheringHistory g
  /-- A result that comes later is waited for, where others wait for it. -/
  later : ∀ c ls w', x w = (.done (.container c), w') → w'.container c = .pending ls →
    m.runTask t w = (.done (), w'.await c ls (.gather g k))
  /-- A module that fails brings nothing. -/
  never : ∀ e w', x w = (.failed e, w') →
    m.runTask t w = (.failed e, w'.mark (.gathering g (.failed k)))

namespace Machine

variable (n : Nat) (g : Ref .gathering) (k : Nat)

/-- A slot that listens to a container with a result gets it at once. -/
theorem listen_arrived {c : Ref .container} {u : Value} {w : World}
    (hc : w.container c = .resolved u) : w.gatheringHistory g ++ [.arrived k u] <+:
      ((ofFuel (n + 1)).listen c (.gather g k) w).2.gatheringHistory g := by
  generalize hw₁ : w.mark (.container c (.toldLate (.gather g k) u)) = w₁
  have hstart : w.gatheringHistory g = w₁.gatheringHistory g := by
    rw [← hw₁, World.gatheringHistory_mark]
    exact (List.append_nil _).symm
  -- to tell the slot is to gather the result
  have told : Run.Leads (fun w => w = w₁) ((ofFuel (n + 1)).notify (.gather g k) u)
      (fun _ w => w₁.gatheringHistory g ++ [.arrived k u] <+: w.gatheringHistory g)
      fun w => w₁.gatheringHistory g ++ [.arrived k u] <+: w.gatheringHistory g := by
    refine Run.Leads.of_reached fun w hw => ?_
    rw [hw]
    exact gather_arrived n g k u w₁
  -- what is remembered after that only adds to the history
  have answered := told.bind_attempt (f := fun result => (do
      Run.mark (.container c (.answeredLate (.gather g k) result))
      Run.ofExcept result : Hosted Unit))
    (S := fun _ w => w₁.gatheringHistory g ++ [.arrived k u] <+: w.gatheringHistory g)
    fun result => Run.Keeps.bind (Run.Leads.mark fun w hw => by
      rw [World.gatheringHistory_mark]
      exact hw.trans (List.prefix_append _ _)) fun _ => Run.Keeps.ofExcept
  rw [Machine.listen, Run.addListener_resolved hc, hstart, hw₁]
  exact answered.of_all rfl

/-- The run of a module hands on what the module comes to. -/
theorem evaluateModule_of_eq (m : Machine) {r : Ref .environment} {e : Environment}
    (context : Ref .context) (source : ModuleSource) (globals arguments : Bindings)
    (then_ : Listener) {w w' : World} (he : w.environment? r = some e)
    {result : Except HostError Value}
    (hx : e.moduleValue m r context source globals arguments w = Run.ofExcept result w') :
    m.evaluateModule r context source globals arguments then_ w = m.handOn then_ result w' := by
  unfold evaluateModule
  rw [Run.bind_of_done (Run.read_apply _ _), he]
  exact Run.bind_of_done (Run.attempt_of_eq hx)

/-- **Each module brings its result to the slot that its task names.** -/
theorem runTask_brings {r : Ref .environment} {e : Environment} (context : Ref .context)
    (source : ModuleSource) (globals arguments : Bindings) {w : World}
    (he : w.environment? r = some e) :
    Task.Brings (ofFuel (n + 1)) (.module r context source globals arguments (.gather g k))
      (e.moduleValue (ofFuel (n + 1)) r context source globals arguments) g k w := by
  have ran : ∀ result w',
      e.moduleValue (ofFuel (n + 1)) r context source globals arguments w =
        Run.ofExcept result w' →
      (ofFuel (n + 1)).runTask (.module r context source globals arguments (.gather g k)) w =
        (ofFuel (n + 1)).handOn (.gather g k) result w' := fun _ _ =>
    evaluateModule_of_eq _ context source globals arguments _ he
  refine ⟨fun v u w' hx hu => ?_, fun c ls w' hx hc => ?_, fun err w' hx => ?_⟩
  · rw [ran (.ok v) w' hx]
    cases v with
    | container c =>
      -- a container is settled when it has its result
      have hc : w'.container c = .resolved u := by
        cases hw : w'.container c with
        | resolved u' =>
          rw [World.settled?, World.result?, hw] at hu
          rw [Option.some.inj hu]
        | pending ls =>
          rw [World.settled?, World.result?, hw] at hu
          cases hu
      exact listen_arrived n g k hc
    | _ =>
      obtain rfl := Option.some.inj hu
      exact gather_arrived n g k _ w'
  · rw [ran (.ok (.container c)) w' hx]
    exact Run.addListener_pending hc _
  · rw [ran (.error err) w' hx]
    rfl

end Machine

/-! ### What callbacks see as `this` -/

/-- **The `use` of a module** runs where the module does, and remembers an object made from the
arguments of the module. -/
theorem Environment.moduleBindings_use {e : Environment} {r : Ref .environment}
    {context : Ref .context} {source : ModuleSource} {globals arguments b : Bindings} {x : Exports}
    {w w' : World}
    (h : (e.moduleBindings r context source globals arguments x : Hosted Bindings) w =
      (.done b, w')) :
    ∃ f o properties, b.entries.get? "use" = some (.value (.function f)) ∧
      w'.functions.get? f = some (.use ⟨r, context, source.bindingsFrom globals, .object o⟩) ∧
      w'.objects.get? o = some { properties := .ofList properties } ∧
      ∃ w₁ w₂, (Bindings.realizeAll arguments.entries.entries : Hosted _) w₁ =
        (.done properties, w₂) := by
  -- the steps in order: the object is made of the arguments, then the function that remembers it
  obtain ⟨extended, w₁, _, h⟩ := Run.exists_of_bind_done h
  obtain ⟨console, w₂, _, h⟩ := Run.exists_of_bind_done h
  obtain ⟨this, w₃, hthis, h⟩ := Run.exists_of_bind_done h
  obtain ⟨f, w₄, hf, h⟩ := Run.exists_of_bind_done h
  obtain ⟨heap, w₅, hheap, h⟩ := Run.exists_of_bind_done h
  obtain ⟨properties, w₆, hproperties, hthis⟩ := Run.exists_of_bind_done hthis
  obtain ⟨o, w₇, ho, hthis⟩ := Run.exists_of_bind_done hthis
  cases ho
  cases hthis
  cases hf
  cases hheap
  cases h
  refine ⟨_, _, properties, ?_, Table.get?_add_fresh _ _, Table.get?_add_fresh _ _, w₂, w₆,
    hproperties⟩
  exact (OrderedMap.get?_insert _ _ _ _).trans (if_pos rfl)

/-! ### Whatever happens then -/

/-- The slots whose modules failed, in order. -/
def failedIn (ms : List GatheringMoment) : List Nat :=
  ms.filterMap fun | .failed k => some k | _ => none

/-- A module is over when its result has come or it has failed. -/
theorem length_overIn (ms : List GatheringMoment) :
    (overIn ms).length = (arrivedIn ms).length + (failedIn ms).length := by
  induction ms with
  | nil => rfl
  | cons m rest ih =>
    -- each ending is of one of the two kinds
    simp only [overIn, arrivedIn, failedIn] at ih ⊢
    cases m with
    | arrived k v => simp [ih]; omega
    | failed k => simp [ih]; omega
    | _ => simpa using ih

/-- **What became of a gathering** of at least one result: modules came to an end, and then perhaps
the callback was called. `result` is what its container has, and `taken` is what that has been
completed with. Only while the callback is being called the gathering is `active`. -/
structure Gathering.Became (x : Gathering) (active : Prop) (early late : List GatheringMoment)
    (result : Option Value) (taken : List Value) : Prop where
  deliveries : ∀ m ∈ early, m.isDelivery = true
  /-- No module comes to an end twice. -/
  nodup : (overIn early).Nodup
  slots : ∀ k ∈ overIn early, k < x.slots.size
  /-- The countdown is the number of results that are missing. -/
  countdown : x.remaining + (arrivedIn early).length = x.slots.size
  /-- A result whose module has failed stays missing. -/
  missing : failedIn early ≠ [] → (arrivedIn early).length < x.slots.size
  /-- While a result is missing, the callback is not called and the container is pending. -/
  waiting : (arrivedIn early).length < x.slots.size → late = [] ∧ result = none ∧ taken = []
  /-- When none is missing, the callback has been called with all of them in the order of the slots,
  and the container has been completed with what it returned, unless it failed. -/
  called : (arrivedIn early).length = x.slots.size →
    (∀ k v, x.slots[k]? = some v ↔ (k, v) ∈ arrivedIn early) ∧
    ((∃ v, late = [.called x.callback x.this x.slots, .returned (.ok v)] ∧ result = some v ∧
        taken = [v]) ∨
      (∃ e, late = [.called x.callback x.this x.slots, .returned (.error e)] ∧ result = none ∧
        taken = []) ∨
      (active ∧ late = [.called x.callback x.this x.slots] ∧ result = none ∧ taken = []))

/-- **The callback of a gathering is called once** at most, and when and with what it should. -/
def Gathering.CalledOnce (g : Ref .gathering) (x : Gathering) (active : Prop) (w : World) : Prop :=
  ∃ early late, w.gatheringHistory g =
      .opened x.slots.size x.callback x.this x.container :: (early ++ late) ∧
    x.Became active early late (w.result? x.container) (w.takenSince g x.container)

theorem Account.calledOnce {i : Calling} {hand : List Listener} {w : World} {g : Ref .gathering}
    {x : Gathering} (h : Account i hand w g x) (hpos : 0 < x.slots.size) :
    x.CalledOnce g ((g, x) ∈ i) w := by
  obtain ⟨early, late, hh, hc, hp⟩ := h.course
  have hover : overIn (w.gatheringHistory g) = overIn early ++ overIn late := by
    rw [hh]
    exact List.filterMap_append
  -- the endings alone are no more than the endings and the listeners
  have hcounts : ∀ j, (overIn early).count j ≤ if j < x.slots.size then 1 else 0 := by
    intro j
    refine Nat.le_trans ?_ (h.tokens j)
    rw [hover, List.count_append]
    omega
  have hcount := hc.count
  refine ⟨early, late, hh, hc.deliveries, ?_, ?_, hcount, ?_, ?_, ?_⟩
  · refine List.nodup_iff_count_le_one.mpr fun j => ?_
    have := hcounts j
    split at this <;> omega
  · intro k hk
    have hpos : 0 < (overIn early).count k := List.count_pos_iff.mpr hk
    have := hcounts k
    split at this <;> omega
  · intro hf
    -- failures and arrivals together are no more than the slots
    have hlen := length_le_of_counts hcounts
    have hpos := List.length_pos_iff.mpr hf
    rw [length_overIn] at hlen
    omega
  · intro hlt
    -- a result is missing, so the countdown is above zero: the gathering waits
    generalize w.result? x.container = r at hp ⊢
    generalize w.takenSince g x.container = t at hp ⊢
    cases hp with
    | waiting _ _ => exact ⟨rfl, rfl, rfl⟩
    | calling hz _ | failed _ hz _ | completed _ hz _ => omega
  · intro hall
    refine ⟨fun k v => ⟨fun hk => ?_, hc.values k v⟩, ?_⟩
    · -- a slot for which nothing came would make the results fewer than the slots
      have hlt : k < x.slots.size := (Array.getElem?_eq_some_iff.mp hk).1
      have hmem : k ∈ (arrivedIn early).map Prod.fst := by
        refine Classical.byContradiction fun hn => ?_
        have := length_lt_of_unseen
          (fun j => Nat.le_trans ((arrived_sublist early).count_le j) (hcounts j)) hlt hn
        rw [List.length_map] at this
        omega
      obtain ⟨⟨j, u⟩, hu, rfl⟩ := List.mem_map.mp hmem
      obtain rfl : u = v := Option.some.inj ((hc.values _ _ hu).symm.trans hk)
      exact hu
    · generalize w.result? x.container = r at hp ⊢
      generalize w.takenSince g x.container = t at hp ⊢
      cases hp with
      -- nothing is missing, so the countdown is at zero
      | waiting hw _ => omega
      | calling _ ha => exact .inr (.inr ⟨ha, rfl, rfl, rfl⟩)
      | failed e _ _ => exact .inr (.inl ⟨e, rfl, rfl, rfl⟩)
      | completed v _ _ => exact .inl ⟨v, rfl, rfl, rfl⟩

/-- What happened to a gathering stays so, whatever the host does. -/
theorem Deed.run_lengthens (n : Nat) (d : Deed) (g : Ref .gathering) (w : World) :
    w.gatheringHistory g <+: (d.run (.ofFuel n) w).2.gatheringHistory g := by
  generalize hpast : w.gatheringHistory g = past
  -- what the history of a gathering begins with, it keeps
  have L := @lawful_of_history (fun h => past <+: (h.filterMap (Moment.ofGathering? g)).reverse)
    fun m h => prefix_of_longer m h
  exact (d.run_keeps L (Machine.ofFuel_keeps L n) () []).of_all
    ⟨[], (List.append_nil _).trans hpast.symm⟩

/-- **A `use` of modules calls back once, with all their results in the order of the request.** The
first part says what the call does in a running task, and the second what its callback sees as
`this`. The next three follow a result: to the slot that the task of its module names, now or when
it is told, and there to the call of the callback if it is the last. The final part is about all
sessions: whatever the host and its scripts do, and in whatever order the results arrive, each
gathering becomes what it should. -/
theorem Machine.use_calls_back_once :
    -- the call, for at least one dependency, all of which are found
    (∀ (m : Machine) (site : UseSite) (e : Environment) (d : Value) (f : Ref .function)
      (rest : List Value) (arguments : Array Value) (sources : List ModuleSource) (script : String)
      (w w₁ : World),
      arguments.toList = d :: .function f :: rest →
      w.keptEnvironment? site.environment = some e → w.isAlive site.context = true →
      w.isRunning site.context = true →
      site.prepare e d w = (.done (sources, script), w₁) → sources ≠ [] →
      ∃ w', site.invoke m arguments w = (.done (.container w.containers.fresh), w') ∧
        site.Opens f script sources w w') ∧
    -- the `use` of a module remembers an object made from the arguments of the module
    (∀ (e : Environment) (r : Ref .environment) (context : Ref .context) (source : ModuleSource)
      (globals arguments b : Bindings) (x : Exports) (w w' : World),
      (e.moduleBindings r context source globals arguments x : Hosted Bindings) w = (.done b, w') →
      ∃ f o properties, b.entries.get? "use" = some (.value (.function f)) ∧
        w'.functions.get? f = some (.use ⟨r, context, source.bindingsFrom globals, .object o⟩) ∧
        w'.objects.get? o = some { properties := .ofList properties } ∧
        ∃ w₁ w₂, (Bindings.realizeAll arguments.entries.entries : Hosted _) w₁ =
          (.done properties, w₂)) ∧
    -- modules bring their results to the slots that their tasks name, now or later
    (∀ (n : Nat) (g : Ref .gathering) (k : Nat) (r : Ref .environment) (e : Environment)
      (context : Ref .context) (source : ModuleSource) (globals arguments : Bindings) (w : World),
      w.environment? r = some e →
      Task.Brings (ofFuel (n + 1)) (.module r context source globals arguments (.gather g k))
        (e.moduleValue (ofFuel (n + 1)) r context source globals arguments) g k w) ∧
    (∀ (n : Nat) (g : Ref .gathering) (k : Nat) (v : Value) (w : World),
      w.gatheringHistory g ++ [.arrived k v] <+:
        ((ofFuel (n + 1)).notify (.gather g k) v w).2.gatheringHistory g) ∧
    -- the last result calls the callback there and then
    (∀ (m : Machine) (g : Ref .gathering) (x : Gathering) (k : Nat) (v : Value) (w : World),
      w.gatherings.get? g = some x → m.gather g k v w =
        if (x.filled k v).remaining = 0 then
          (do
            let r ← Run.attempt (m.callFor x.script x.callback x.this (x.filled k v).slots)
            Run.mark (.gathering g (.returned r))
            m.complete x.container (← Run.ofExcept r) : Hosted Unit)
          ((w.arrive g k v).mark (.gathering g (.called x.callback x.this (x.filled k v).slots)))
        else (.done (), w.arrive g k v)) ∧
    -- sessions
    ∀ w, Session w → ∀ (d : Deed) (n : Nat), (∀ l ∈ d.brings, w.grants l) → ∀ w',
      (d.run (ofFuel n) w).2 = w' → promptCalls w'.history ∧
      (∀ g, w.gatheringHistory g <+: w'.gatheringHistory g) ∧
      ∀ g x, w'.gatherings.get? g = some x → 0 < x.slots.size →
        ∃ active, ((d.run (ofFuel n) w).1 ≠ .exhausted → ¬ active) ∧ x.CalledOnce g active w' := by
  refine ⟨fun m site e d f rest arguments sources script w w₁ hargs he ha hr hp hne => ?_,
    fun e r context source globals arguments b x w w' h => Environment.moduleBindings_use h,
    fun n g k r e context source globals arguments w he => ?_,
    fun n g k v w => gather_arrived n g k v w, fun m g x k v w hx => m.gather_eq hx k v,
    fun w hw d n hd w' hw' => ?_⟩
  · exact UseSite.invoke_opens m hargs he ha hr hp hne
  · exact runTask_brings n g k context source globals arguments he
  · obtain ⟨hended, i, hand, hcut⟩ := d.run_accounted n hd hw.accounted
    -- a deed that is cut off leaves calls under way; one that ends leaves none
    have hgrows := fun g => d.run_lengthens n g w
    rw [hw'] at hended hcut hgrows
    refine ⟨hcut.prompt, hgrows, fun g x hx hpos => ?_⟩
    by_cases he : (d.run (ofFuel n) w).1 = .exhausted
    · exact ⟨_, fun hn => absurd he hn, (hcut.account g x hx).calledOnce hpos⟩
    · exact ⟨_, fun _ => List.not_mem_nil, ((hended he).account g x hx).calledOnce hpos⟩

/-! ### A page with two dependencies -/

/-- The `use` of a page that runs on the first context of the first environment. -/
def pageSite : UseSite := ⟨⟨0⟩, ⟨0⟩, {}, .text "page"⟩

/-- The environment of the page, in which there are two modules. -/
def pageEnvironment : Environment where
  engine := .compiling
  resolver := { repository := ⟨.memory ⟨[⟨"/a.js", none, some "'a'"⟩, ⟨"/b.js", none, some "'b'"⟩]⟩, []⟩ }
  providers := []

/-- A world with the page's `use` and a function of the host's that answers its first argument. -/
def World.ofPage : World where
  lists := ⟨#[#[.text "/a.js", .text "/b.js"]]⟩
  functions := ⟨#[.use pageSite, .host ⟨"callback", none, none⟩]⟩
  heaps := ⟨#[{}]⟩
  contexts := ⟨#[{ heap := ⟨0⟩, holders := 1 }]⟩
  environments := ⟨#[pageEnvironment]⟩

/-- A task in which the page asks for both modules. -/
def askForBoth : Deed := .schedule ⟨0⟩ (.timer .immediate ⟨0⟩ #[.list ⟨0⟩, .function ⟨1⟩])

theorem Session.ofPage : Session .ofPage := by
  refine .arrange .start ⟨rfl, rfl, rfl, rfl, fun c => ?_⟩
  rcases c with ⟨_ | k⟩
  · rfl
  · rfl

/-- The law for the page: its call of `use`, the bindings of a module, the task of one, the last
result, and the whole run. -/
theorem use_calls_back_once_for_page :
    (∃ sources script w', sources.length = 2 ∧
      pageSite.invoke (.ofFuel 9) #[.list ⟨0⟩, .function ⟨1⟩] (World.ofPage.setRunning ⟨0⟩ true) =
        (.done (.container ⟨0⟩), w') ∧
      pageSite.Opens ⟨1⟩ script sources (World.ofPage.setRunning ⟨0⟩ true) w') ∧
    (∃ (b : Bindings) (w' : World) (f : Ref .function) (site : UseSite),
      b.entries.get? "use" = some (.value (.function f)) ∧
        w'.functions.get? f = some (.use site)) ∧
    Task.Brings (.ofFuel 9) (.module ⟨0⟩ ⟨0⟩ ⟨"/a.js", "'a'"⟩ {} {} (.gather ⟨0⟩ 1))
      (pageEnvironment.moduleValue (.ofFuel 9) ⟨0⟩ ⟨0⟩ ⟨"/a.js", "'a'"⟩ {} {}) ⟨0⟩ 1 .ofPage ∧
    (Machine.ofFuel 9).gather ⟨0⟩ 1 .null (World.ofPage.openGathering 2 ⟨1⟩ .null "") =
      (.done (), (World.ofPage.openGathering 2 ⟨1⟩ .null "").arrive ⟨0⟩ 1 .null) ∧
    ∃ w' x, askForBoth.run (.ofFuel 12) .ofPage = (.done (), w') ∧
      w'.gatherings.get? ⟨0⟩ = some x ∧ x.slots.size = 2 ∧ x.remaining = 0 ∧
        x.CalledOnce ⟨0⟩ False w' := by
  have law := Machine.use_calls_back_once
  refine ⟨?_, ?_, law.2.2.1 8 _ _ _ _ _ _ _ _ _ rfl, ?_, ?_⟩
  · have hfound : (match pageSite.prepare pageEnvironment (.list ⟨0⟩)
        (World.ofPage.setRunning ⟨0⟩ true) with
      | (.done (sources, _), _) => sources.length
      | _ => 0) = 2 := by decide +kernel
    split at hfound
    · next sources script w₁ hp =>
      have hne : sources ≠ [] := by
        rintro rfl
        exact absurd hfound nofun
      obtain ⟨w', hw', ho⟩ := law.1 (.ofFuel 9) _ _ _ _ _ #[.list ⟨0⟩, .function ⟨1⟩] _ _ _ _ rfl rfl
        rfl rfl hp hne
      exact ⟨sources, script, w', hfound, hw', ho⟩
    · exact absurd hfound nofun
  · have hbound : (match (pageEnvironment.moduleBindings ⟨0⟩ ⟨0⟩ ⟨"/a.js", "'a'"⟩ {} {}
        ⟨⟨0⟩, ⟨1⟩, ⟨0⟩⟩ : Hosted Bindings) World.ofPage with
      | (.done _, _) => true
      | _ => false) = true := by decide +kernel
    split at hbound
    · next b w' hb =>
      obtain ⟨f, o, properties, hf, hs, _⟩ := law.2.1 _ _ _ _ _ _ _ _ _ _ hb
      exact ⟨b, w', f, _, hf, hs⟩
    · exact absurd hbound nofun
  · have hx : (World.ofPage.openGathering 2 ⟨1⟩ .null "").gatherings.get? ⟨0⟩ =
        some (.empty 2 ⟨1⟩ .null "" ⟨0⟩) := rfl
    exact (law.2.2.2.2.1 (.ofFuel 9) ⟨0⟩ _ 1 .null _ hx).trans (if_neg nofun)
  · have hdone : (match askForBoth.run (.ofFuel 12) .ofPage with
      | (.done (), w') => (w'.gatherings.get? ⟨0⟩).map fun x => (x.slots.size, x.remaining)
      | _ => none) = some (2, 0) := by decide +kernel
    split at hdone
    · next w' hr =>
      obtain ⟨x, hx, hsize⟩ := Option.map_eq_some_iff.mp hdone
      obtain ⟨hsize, hrem⟩ := Prod.mk.inj hsize
      have hw := law.2.2.2.2.2 .ofPage .ofPage askForBoth 12 nofun w' (by rw [hr])
      obtain ⟨active, ha, hc⟩ := hw.2.2 ⟨0⟩ x hx (by omega)
      have hn : active = False := eq_false (ha (by rw [hr]; exact nofun))
      rw [hn] at hc
      exact ⟨w', x, hr, hx, hsize, hrem, hc⟩
    · exact absurd hdone nofun

end ScriptModules
