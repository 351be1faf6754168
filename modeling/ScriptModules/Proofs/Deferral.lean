import ScriptModules.Proofs.Inquiries
import ScriptModules.Proofs.Use

/-!
# A `use` in a running task

A call of `use` while the queue is being drained runs nothing, and it does all or nothing. It finds
out what it is asked for and where the modules are; if that fails, nothing that was there has
changed, and the error says what the first obstacle was (`UseSite.Refuses`). Otherwise there is one
new container, and the tasks stand at the end of the queue in the order of the request
(`UseSite.Schedules`).

The main statement, `UseSite.apply_settles`, follows the call from the arguments to the queue:
`dependencyNames_eq` for the texts of the request, `Resolver.findAll_comes` for the modules, and
`runAll_running` for the tasks.
-/

namespace ScriptModules

/-! ### What is asked for -/

section

variable {ε α : Type} {f : World → Option α} {w : World}

theorem Run.formOf_of_some {a : α} (h : f w = some a) : (formOf f : Run ε α) w = (.done a, w) := by
  rw [formOf, h]

theorem Run.formOf_of_none (h : f w = none) :
    (formOf f : Run ε α) w = (.exhausted, w.mark (.call .endless)) := by
  rw [formOf, h]

end

/-- The texts of a requested value, if each has one: of the items of a list, or of a single value. -/
def World.requested? (w : World) : Value → Option (List String)
  | .list l => (w.items l).toList.mapM fun (v : Value) => v.toText? w
  | v => (v.toText? w).map ([·])

namespace UseSite

/-- The argument that should be a callback: the second, or the only one. -/
def callbackIn? : List Value → Option Value
  | [] => none
  | [callback] => some callback
  | _ :: callback :: _ => some callback

/-- The names of the modules that the arguments ask for, if each has a text. -/
def namesIn? (w : World) : List Value → Option (List String)
  | dependencies :: _ :: _ => w.requested? dependencies
  | _ => some []

/-- The texts of values are read in order, and nothing changes. -/
theorem textsOf_eq (vs : List Value) (w : World) :
    dependencyNames.textsOf vs w = Run.formOf (fun w => vs.mapM fun (v : Value) => v.toText? w) w := by
  induction vs with
  | nil => rfl
  | cons v rest ih =>
    cases hv : v.toText? w with
    | none =>
      have hall : (v :: rest).mapM (fun (v : Value) => v.toText? w) = none := by simp [hv]
      rw [Run.formOf_of_none hall]
      exact Run.bind_of_exhausted (Run.formOf_of_none hv)
    | some s =>
      cases hrest : rest.mapM fun (v : Value) => v.toText? w with
      | none =>
        have hall : (v :: rest).mapM (fun (v : Value) => v.toText? w) = none := by simp [hv, hrest]
        rw [Run.formOf_of_none hrest] at ih
        rw [Run.formOf_of_none hall]
        exact (Run.bind_of_done (Run.formOf_of_some hv)).trans (Run.bind_of_exhausted ih)
      | some texts =>
        have hall : (v :: rest).mapM (fun (v : Value) => v.toText? w) = some (s :: texts) := by
          simp [hv, hrest]
        rw [Run.formOf_of_some hrest] at ih
        rw [Run.formOf_of_some hall]
        exact (Run.bind_of_done (Run.formOf_of_some hv)).trans (Run.bind_of_done ih)

/-- The names of a request are read, and nothing changes. -/
theorem dependencyNames_eq (d : Value) (w : World) :
    dependencyNames d w = Run.formOf (·.requested? d) w := by
  have single : ∀ v : Value, (do return [← Run.textOf v] : Hosted (List String)) w =
      Run.formOf (fun w => (v.toText? w).map ([·])) w := by
    intro v
    cases hv : v.toText? w with
    | none =>
      rw [Run.formOf_of_none (by rw [hv]; rfl)]
      exact Run.bind_of_exhausted (Run.formOf_of_none hv)
    | some s =>
      rw [Run.formOf_of_some (a := [s]) (by rw [hv]; rfl)]
      exact Run.bind_of_done (Run.formOf_of_some hv)
  cases d with
  | list l => exact textsOf_eq (w.items l).toList w
  | _ => exact single _

end UseSite

/-! ### What is found -/

/-- **Modules are found in order,** up to the first that is not. -/
theorem Resolver.findAll_comes (r : Resolver) (start : LookupContext) (names : List String)
    (w : World) :
    match r.findAll start names w with
    | (.done sources, _) =>
      List.Forall₂ (fun name source => (r.resolve start name).value = .ok source) names sources
    | (.failed e, _) => ∃ before name after, names = before ++ name :: after ∧
      (∀ x ∈ before, ∃ source, (r.resolve start x).value = .ok source) ∧
        (r.resolve start name).value = .error e
    | (.exhausted, _) => False := by
  induction names generalizing w with
  | nil => exact .nil
  | cons name rest ih =>
    obtain ⟨w₁, hfind⟩ := r.find_eq start name w
    unfold findAll
    cases hname : (r.resolve start name).value with
    | error e =>
      rw [hname] at hfind
      rw [Run.bind_of_failed hfind]
      exact ⟨[], name, rest, rfl, by simp, hname⟩
    | ok source =>
      rw [hname] at hfind
      -- looking for a module changes the log at most, so the rest is as in any world
      have ih := ih w₁
      rw [Run.bind_of_done hfind, Run.bind_apply]
      rcases hrest : r.findAll start rest w₁ with ⟨sources | e | _, w₂⟩
      · rw [hrest] at ih
        exact .cons hname ih
      · rw [hrest] at ih
        obtain ⟨before, name', after, rfl, hbefore, hname'⟩ := ih
        exact ⟨name :: before, name', after, rfl,
          List.forall_mem_cons.2 ⟨⟨source, hname⟩, hbefore⟩, hname'⟩
      · rw [hrest] at ih
        exact ih

/-! ### What a call comes to -/

/-- The queue of a context is being drained, and by that the context is held. -/
def World.Draining (w : World) (c : Ref .context) : Prop :=
  ∃ x, w.context? c = some x ∧ x.running = true ∧ 0 < x.holders

namespace World.Draining

variable {w : World} {c : Ref .context}

/-- It is so from when the draining begins. -/
theorem begin {x : Context} (h : w.context? c = some x) : (w.beginDrain c).Draining c := by
  refine ⟨{ x with running := true, holders := x.holders + 1 }, ?_, rfl, Nat.succ_pos _⟩
  rw [beginDrain, hold, context?_changeContext, if_pos rfl, setRunning, context?_changeContext,
    if_pos rfl, h]
  rfl

theorem isRunning (h : w.Draining c) : w.isRunning c = true := by
  obtain ⟨x, hx, hr, _⟩ := h
  rw [isRunning_of_some hx, hr]

theorem isAlive (h : w.Draining c) : w.isAlive c = true := by
  obtain ⟨x, hx, _, hheld⟩ := h
  unfold World.isAlive
  rw [hx]
  simp [hheld]

end World.Draining

/-- A context whose queue is not the one that tasks are put into is as it was. -/
theorem World.context?_enqueueAll_of_ne {c c' : Ref .context} (h : c ≠ c') (ts : List Task)
    (w : World) : (w.enqueueAll c ts).context? c' = w.context? c' := by
  induction ts generalizing w with
  | nil => rfl
  | cons t rest ih => exact (ih _).trans (w.context?_changeContext_of_ne h _)

namespace UseSite

variable (site : UseSite) (w : World)

/-- **Why a call of `use` fails:** the arguments are wrong, the environment is gone, or a dependency is
not found though all before it are. -/
inductive Refuses (arguments : List Value) : HostError → Prop
  | noArguments : arguments = [] →
      Refuses arguments (.invalidArguments "Not enough arguments for use")
  | noCallback {v : Value} : callbackIn? arguments = some v → (∀ f, v ≠ .function f) →
      Refuses arguments (.invalidArguments "No callback argument supplied")
  /-- Modules run only in an environment that someone holds. -/
  | environmentGone {names : List String} : namesIn? w arguments = some names → names ≠ [] →
      w.keptEnvironment? site.environment = none →
      Refuses arguments (.lifecycleMisuse .environmentGone)
  | unresolved {e : Environment} {start : LookupContext} {w₁ : World} {before after : List String}
      {name : String} {err : HostError} :
      w.keptEnvironment? site.environment = some e →
      namesIn? w arguments = some (before ++ name :: after) →
      (e.resolver.lookupContext site.globals : Hosted LookupContext) w = (.done start, w₁) →
      (∀ x ∈ before, ∃ source, (e.resolver.resolve start x).value = .ok source) →
      (e.resolver.resolve start name).value = .error err → Refuses arguments err

/-- **What a call of `use` schedules:** one task for the callback or, if modules are asked for, one
for each of them in the order of the request. -/
inductive Schedules (f : Ref .function) : List String → List Task → Prop
  | callback (script : String) :
      Schedules f [] [.useCallback f site.this script w.containers.fresh]
  | modules {e : Environment} {start : LookupContext} {w₁ : World} {names : List String}
      {sources : List ModuleSource} : names ≠ [] →
      w.keptEnvironment? site.environment = some e →
      (e.resolver.lookupContext site.globals : Hosted LookupContext) w = (.done start, w₁) →
      List.Forall₂ (fun name source => (e.resolver.resolve start name).value = .ok source) names
        sources →
      Schedules f names (site.moduleTasks w.gatherings.fresh 0 sources)

/-- Only this was done: a container was made, and tasks were put at the end of the queue. -/
structure Defers (tasks : List Task) (w' : World) : Prop where
  containers : w'.containers = w.containers.add (.pending [])
  queue : w'.waitingTasks site.context = w.waitingTasks site.context ++ tasks
  elsewhere : ∀ c, site.context ≠ c → w'.context? c = w.context? c
  history : ∃ added, w'.history = added ++ w.history ∧ ∀ k, .call k ∉ added

variable {site w}

theorem Schedules.length {f : Ref .function} {names : List String} {tasks : List Task}
    (h : site.Schedules w f names tasks) : tasks.length = max 1 names.length := by
  cases h with
  | callback script => rfl
  | modules hne _ _ hall =>
    have hpos := List.length_pos_iff.2 hne
    rw [moduleTasks, List.length_map, List.length_zipIdx, ← hall.length_eq]
    omega

/-- Where a container was made and nothing was called, tasks may follow. -/
theorem Defers.enqueueAll {w₁ : World} {added : List Moment} {x : Context} (tasks : List Task)
    (hx : w.context? site.context = some x) (hcontexts : w₁.contexts = w.contexts)
    (hcontainers : w₁.containers = w.containers.add (.pending []))
    (hhistory : w₁.history = added ++ w.history) (hcalls : ∀ k, .call k ∉ added) :
    site.Defers w tasks (w₁.enqueueAll site.context tasks) := by
  have hsame : ∀ c, w₁.context? c = w.context? c := fun c => by
    rw [World.context?, World.context?, hcontexts]
  refine ⟨?_, ?_, fun c hc => ?_, (tasks.map fun t => Moment.queue site.context (.enqueued t)).reverse
    ++ added, ?_, fun k hk => ?_⟩
  · rw [World.enqueueAll_containers, hcontainers]
  · have hx₁ := (hsame _).trans hx
    rw [World.waitingTasks_enqueueAll _ hx₁, World.waitingTasks_eq hx₁, World.waitingTasks_eq hx]
  · rw [World.context?_enqueueAll_of_ne hc, hsame]
  · rw [World.enqueueAll_history, hhistory, List.append_assoc]
  · rcases List.mem_append.1 hk with hk | hk
    · obtain ⟨t, _, ht⟩ := List.mem_map.1 (List.mem_reverse.1 hk)
      cases ht
    · exact hcalls k hk

variable (site w)

/-- **All or nothing:** how a call of `use` with the arguments ends. It has no end only where an item
of the request has no text. -/
def Settles (arguments : List Value) : Outcome HostError (Ref .container) × World → Prop
  | (.failed e, w') => site.Refuses w arguments e ∧ World.SameShared w w'
  | (.done c, w') => c = w.containers.fresh ∧ ∃ f names tasks,
      callbackIn? arguments = some (.function f) ∧ namesIn? w arguments = some names ∧
      site.Schedules w f names tasks ∧ site.Defers w tasks w'
  | (.exhausted, _) => namesIn? w arguments = none

/-! ### The two forms -/

/-- The name of the module whose `use` this is can be read in any world. -/
theorem script_yields (site : UseSite) : Run.Yields site.script :=
  .bind (site.globals.getText?_yields _) fun _ => .pure

theorem liveEnvironment_of_gone {site : UseSite} {w : World}
    (he : w.keptEnvironment? site.environment = none) :
    site.liveEnvironment w = (.failed (.lifecycleMisuse .environmentGone), w) := by
  unfold liveEnvironment
  rw [Run.bind_of_done (Run.read_apply _ _), he]
  rfl

/-- Once the modules are found, their results are gathered and their tasks put into the queue. -/
theorem gather_defers {site : UseSite} {w w₁ : World} (f : Ref .function)
    (sources : List ModuleSource) (hr : w.Draining site.context)
    (hs : World.SameShared w w₁) :
    ∃ w', (∀ m, (do
        let script ← site.script
        let (g, result) ← Run.openGathering sources.length f site.this script
        site.runAll m site.context g 0 sources
        return result : Hosted (Ref .container)) w₁ = (.done w.containers.fresh, w')) ∧
      site.Defers w (site.moduleTasks w.gatherings.fresh 0 sources) w' := by
  obtain ⟨x, hx, _⟩ := id hr
  obtain ⟨script, w₂, hscript⟩ := script_yields site w₁
  have hs₂ : World.SameShared w w₂ :=
    IsTrans.trans _ _ _ hs (site.script_quiet.of_eq (r := .ok script) hscript).toSameShared
  have hr₂ : (w₂.openGathering sources.length f site.this script).isRunning site.context = true :=
    (hs₂.isRunning _).trans hr.isRunning
  have hopened : (w₂.openGathering sources.length f site.this script).history =
      [.gathering w₂.gatherings.fresh (.opened sources.length f site.this w₂.containers.fresh)] ++
        w.history := congrArg (_ :: ·) hs₂.history
  refine ⟨(w₂.openGathering sources.length f site.this script).enqueueAll site.context
    (site.moduleTasks w.gatherings.fresh 0 sources), fun m => ?_, .enqueueAll _ hx hs₂.contexts
      (congrArg (·.add (.pending [])) hs₂.containers) hopened ?_⟩
  · rw [Run.bind_of_done hscript]
    show (site.runAll m site.context w₂.gatherings.fresh 0 sources >>=
      fun _ => pure w₂.containers.fresh) (w₂.openGathering sources.length f site.this script) = _
    rw [Run.bind_of_done (site.runAll_running m _ 0 sources hr₂), hs₂.containers, hs₂.gatherings]
    rfl
  · intro k hk
    exact absurd (List.mem_singleton.1 hk) nofun

/-- A call comes to something, and this does not depend on what other calls would do. -/
def SettlesBy (site : UseSite) (w : World) (arguments : List Value)
    (x : Machine → Hosted (Ref .container)) : Prop :=
  ∃ r, (∀ m, x m w = r) ∧ site.Settles w arguments r

section

variable {site w} {arguments : List Value}

/-- A failure that changes nothing that matters. -/
theorem SettlesBy.refuse {x : Machine → Hosted (Ref .container)} {e : HostError} {w' : World}
    (hx : ∀ m, x m w = (.failed e, w')) (he : site.Refuses w arguments e) (hs : World.SameShared w w') :
    site.SettlesBy w arguments x :=
  ⟨_, hx, he, hs⟩

variable {f : Ref .function} (hf : callbackIn? arguments = some (.function f))
  (hr : w.Draining site.context)

include hf hr

/-- Without dependencies the callback waits for its turn. -/
theorem useCallback_settles (hn : namesIn? w arguments = some []) :
    site.SettlesBy w arguments fun m => site.useCallback m f := by
  obtain ⟨x, hx, _⟩ := id hr
  have hnew : (Run.newContainer (.pending []) : Hosted _) w =
      (.done w.containers.fresh, w.addContainer (.pending [])) := rfl
  obtain ⟨script, w₁, hscript⟩ := script_yields site (w.addContainer (.pending []))
  have hs : World.SameShared (w.addContainer (.pending [])) w₁ :=
    (site.script_quiet.of_eq (r := .ok script) hscript).toSameShared
  have hr₁ : w₁.isRunning site.context = true := (hs.isRunning _).trans hr.isRunning
  have ha₁ : w₁.isAlive site.context = true := (hs.isAlive _).trans hr.isAlive
  refine ⟨(.done w.containers.fresh, w₁.enqueueAll site.context
    [.useCallback f site.this script w.containers.fresh]), fun m => ?_, rfl, f, [], _, hf, hn,
    .callback script, .enqueueAll _ hx hs.contexts hs.containers (List.nil_append _ ▸ hs.history)
      fun _ => List.not_mem_nil⟩
  have hschedule : m.schedule site.context
      (.useCallback f site.this script w.containers.fresh) w₁ = (.done (), _) :=
    Run.schedule_running hr₁
  show site.useCallback m f w = _
  unfold useCallback
  rw [Run.bind_of_done hnew, Run.bind_of_done hscript,
    Run.bind_of_done (liveContext_of_alive ha₁), Run.bind_of_done hschedule]
  rfl

/-- With dependencies their modules wait for their turns. -/
theorem useModules_settles {names : List String} (hn : namesIn? w arguments = some names)
    (hne : names ≠ []) : site.SettlesBy w arguments fun m => site.useModules m names f := by
  cases he : w.keptEnvironment? site.environment with
  | none =>
    refine .refuse (fun m => ?_) (.environmentGone hn hne he) (Std.Refl.refl w)
    unfold useModules
    rw [Run.bind_of_failed (liveEnvironment_of_gone he)]
  | some e =>
    have ha := hr.isAlive
    obtain ⟨start, w₁, hstart⟩ : ∃ start w₁,
        (e.resolver.lookupContext site.globals : Hosted LookupContext) w = (.done start, w₁) := by
      obtain ⟨scripts, driverType, w₁, h⟩ := e.resolver.lookupContext_yields site.globals w
      exact ⟨_, w₁, h⟩
    have hs₁ : World.SameShared w w₁ :=
      ((e.resolver.lookupContext_quiet _).of_eq (r := .ok _) hstart).toSameShared
    -- the modules are looked for before anything is made
    have hfirst : ∀ m, site.useModules m names f w =
        (e.resolver.findAll start names >>= fun sources => do
          let script ← site.script
          let (g, result) ← Run.openGathering sources.length f site.this script
          site.runAll m site.context g 0 sources
          return result : Hosted (Ref .container)) w₁ := by
      intro m
      unfold useModules
      rw [Run.bind_of_done (liveEnvironment_of_kept he), Run.bind_of_done (liveContext_of_alive ha),
        Run.bind_of_done hstart]
    have hcomes := e.resolver.findAll_comes start names w₁
    rcases hfound : e.resolver.findAll start names w₁ with ⟨sources | err | _, w₂⟩
    · rw [hfound] at hcomes
      have hs₂ : World.SameShared w w₂ := IsTrans.trans _ _ _ hs₁
        ((e.resolver.findAll_quiet _ _).of_eq (r := .ok _) hfound).toSameShared
      obtain ⟨w', hgather, hdefers⟩ := gather_defers f sources hr hs₂
      exact ⟨_, fun m => (hfirst m).trans ((Run.bind_of_done hfound).trans (hgather m)),
        rfl, f, names, _, hf, hn, .modules hne he hstart hcomes, hdefers⟩
    · rw [hfound] at hcomes
      obtain ⟨before, name, after, rfl, hbefore, hname⟩ := hcomes
      exact .refuse (fun m => (hfirst m).trans (Run.bind_of_failed hfound))
        (.unresolved he hn hstart hbefore hname) (IsTrans.trans _ _ _ hs₁
          ((e.resolver.findAll_quiet _ _).of_eq (r := .error _) hfound).toSameShared)
    · rw [hfound] at hcomes
      exact hcomes.elim

end

section

variable {site w}

/-- What is no function is refused as a callback. -/
theorem refuse_callback {arguments : List Value} {v : Value}
    {x : Machine → Ref .function → Hosted (Ref .container)} (hv : callbackIn? arguments = some v)
    (hf : ¬ ∃ f, v = .function f) :
    site.SettlesBy w arguments fun m => callbackOf v >>= x m := by
  have hrefused : callbackOf v w =
      (.failed (.invalidArguments "No callback argument supplied"), w) := by
    cases v with
    | function f => exact absurd ⟨f, rfl⟩ hf
    | _ => rfl
  exact .refuse (fun m => Run.bind_of_failed hrefused) (.noCallback hv fun f h => hf ⟨f, h⟩)
    (Std.Refl.refl w)

/-- **A call of `use` in a running task settles at once.** -/
theorem apply_settles (arguments : Array Value) (hr : w.Draining site.context) :
    site.SettlesBy w arguments.toList fun m => site.apply m arguments := by
  unfold apply
  rcases arguments.toList with _ | ⟨d, _ | ⟨callback, rest⟩⟩
  · exact .refuse (fun m => rfl) (.noArguments rfl) (Std.Refl.refl w)
  · by_cases hf : ∃ f, d = .function f
    · obtain ⟨f, rfl⟩ := hf
      exact useCallback_settles rfl hr rfl
    · exact refuse_callback rfl hf
  · by_cases hf : ∃ f, callback = .function f
    · obtain ⟨f, rfl⟩ := hf
      have hf : callbackIn? (d :: .function f :: rest) = some (.function f) := rfl
      cases hn : w.requested? d with
      | none =>
        have hnone : dependencyNames d w = (.exhausted, w.mark (.call .endless)) :=
          (dependencyNames_eq d w).trans (Run.formOf_of_none hn)
        exact ⟨_, fun m => Run.bind_of_exhausted (x := dependencyNames d) hnone, hn⟩
      | some names =>
        have hsome : dependencyNames d w = (.done names, w) :=
          (dependencyNames_eq d w).trans (Run.formOf_of_some hn)
        -- the callback is there, and the names are read; nothing has changed
        cases names with
        | nil =>
          obtain ⟨r, hx, hset⟩ := useCallback_settles hf hr hn
          exact ⟨r, fun m => (Run.bind_of_done (x := dependencyNames d) hsome).trans (hx m), hset⟩
        | cons name names =>
          obtain ⟨r, hx, hset⟩ := useModules_settles hf hr hn nofun
          exact ⟨r, fun m => (Run.bind_of_done (x := dependencyNames d) hsome).trans (hx m), hset⟩
    · exact refuse_callback rfl hf

end

/-- **A `use` in a running task is deferred, and it does all or nothing.** Whatever other calls would
do, the call does the same, for it runs no code of a script. It may fail: then the error tells the
first obstacle in the order of the request, and what was there is as it was. Or it answers a new
container that has no result: then exactly the tasks of the request, and at least one, have been put
at the end of the queue in order. There is no third way, except that the text of an item that holds
itself is never finished.

While tasks run their context is held (`World.Draining.begin`), so it is not gone; but the environment
may be. -/
theorem invoke_deferred (site : UseSite) (arguments : Array Value) (w : World)
    (hr : w.Draining site.context) :
    (∀ m m' : Machine, site.invoke m arguments w = site.invoke m' arguments w) ∧
    ∀ m : Machine, match site.invoke m arguments w with
      | (.failed e, w') =>
        (∃ cause, e = .host cause ∧ site.Refuses w arguments.toList cause) ∧ World.SameShared w w'
      | (.done v, w') => v = .container w.containers.fresh ∧
        w.containers.get? w.containers.fresh = none ∧ ∃ f names tasks,
          callbackIn? arguments.toList = some (.function f) ∧
          namesIn? w arguments.toList = some names ∧ site.Schedules w f names tasks ∧
          tasks.length = max 1 names.length ∧ site.Defers w tasks w'
      | (.exhausted, _) => namesIn? w arguments.toList = none := by
  obtain ⟨r, happly, hset⟩ : ∃ r, (∀ m, site.apply m arguments w = r) ∧
      site.Settles w arguments.toList r := apply_settles arguments hr
  have hfresh : w.containers.get? w.containers.fresh = none := Array.getElem?_eq_none (Nat.le_refl _)
  -- calling from a script only changes how the outcome is seen
  have hinvoke : ∀ m, site.invoke m arguments w = match r with
      | (.done c, w') => (.done (.container c), w')
      | (.failed e, w') => (.failed (.host e), w')
      | (.exhausted, w') => (.exhausted, w') := by
    intro m
    unfold invoke
    rw [Run.bind_apply, Run.mapError, happly m]
    rcases r with ⟨c | e | _, w'⟩ <;> rfl
  refine ⟨fun m m' => (hinvoke m).trans (hinvoke m').symm, fun m => ?_⟩
  rw [hinvoke m]
  obtain ⟨c | e | _, w'⟩ := r
  · obtain ⟨rfl, f, names, tasks, hf, hn, hschedules, hdefers⟩ := hset
    exact ⟨rfl, hfresh, f, names, tasks, hf, hn, hschedules, hschedules.length, hdefers⟩
  · exact ⟨⟨e, rfl, hset.1⟩, hset.2⟩
  · exact hset

end UseSite

/-! ### A page with two dependencies -/

/-- The law for the page in a running task: its two modules wait. -/
theorem UseSite.invoke_deferred_for_page :
    (World.ofPage.beginDrain ⟨0⟩).Draining ⟨0⟩ ∧
    ∃ w', pageSite.invoke (.ofFuel 9) #[.list ⟨0⟩, .function ⟨1⟩] (World.ofPage.beginDrain ⟨0⟩) =
        (.done (.container ⟨0⟩), w') ∧
      w'.containers.get? ⟨0⟩ = some (.pending []) ∧ (w'.waitingTasks ⟨0⟩).length = 2 := by
  have draining : (World.ofPage.beginDrain ⟨0⟩).Draining ⟨0⟩ := .begin rfl
  refine ⟨draining, ?_⟩
  have law := (UseSite.invoke_deferred pageSite #[.list ⟨0⟩, .function ⟨1⟩]
    (World.ofPage.beginDrain ⟨0⟩) draining).2 (.ofFuel 9)
  have hdone : (match pageSite.invoke (.ofFuel 9) #[.list ⟨0⟩, .function ⟨1⟩]
      (World.ofPage.beginDrain ⟨0⟩) with
    | (.done _, _) => true
    | _ => false) = true := by decide +kernel
  have hnames : UseSite.namesIn? (World.ofPage.beginDrain ⟨0⟩)
      [.list ⟨0⟩, .function ⟨1⟩] = some ["/a.js", "/b.js"] := by decide +kernel
  split at law
  · next h =>
    rw [h] at hdone
    exact absurd hdone nofun
  · next v w' h =>
    obtain ⟨rfl, _, f, names, tasks, _, hn, _, hlength, hdefers⟩ := law
    obtain rfl : ["/a.js", "/b.js"] = names := Option.some.inj (hnames.symm.trans hn)
    refine ⟨w', h, ?_, ?_⟩
    · rw [hdefers.containers]
      rfl
    · have hqueue : w'.waitingTasks ⟨0⟩ = [] ++ tasks := hdefers.queue
      rw [hqueue, List.nil_append, hlength]
      rfl
  · next h =>
    rw [h] at hdone
    exact absurd hdone nofun

/-- The world of the page when nobody holds its environment any more. -/
def World.ofForsakenPage : World :=
  { World.ofPage with environments := ⟨#[{ pageEnvironment with holders := 0 }]⟩ }

/-- A task of a page whose environment is gone cannot ask for modules, though its arguments are
right and the modules are there. -/
theorem UseSite.forsaken_page_refused :
    Session .ofForsakenPage ∧ (World.ofForsakenPage.beginDrain ⟨0⟩).Draining ⟨0⟩ ∧
    (∃ sources w', sources.length = 2 ∧ pageSite.prepare pageEnvironment (.list ⟨0⟩)
      (World.ofForsakenPage.beginDrain ⟨0⟩) = (.done (sources, ""), w')) ∧
    pageSite.invoke (.ofFuel 9) #[.list ⟨0⟩, .function ⟨1⟩]
        (World.ofForsakenPage.beginDrain ⟨0⟩) =
      (.failed (.host (.lifecycleMisuse .environmentGone)),
        World.ofForsakenPage.beginDrain ⟨0⟩) := by
  refine ⟨.arrange .start ⟨rfl, rfl, rfl, rfl, fun c => ?_⟩, .begin rfl, ?_, ?_⟩
  · rcases c with ⟨_ | k⟩
    · rfl
    · rfl
  · have hfound : (match pageSite.prepare pageEnvironment (.list ⟨0⟩)
        (World.ofForsakenPage.beginDrain ⟨0⟩) with
      | (.done (sources, script), _) => (sources.length, script)
      | _ => (0, "")) = (2, "") := by decide +kernel
    split at hfound
    · next sources script w' h =>
      obtain ⟨hlength, rfl⟩ := Prod.mk.inj hfound
      exact ⟨sources, w', hlength, h⟩
    · exact absurd hfound nofun
  · rfl

end ScriptModules
