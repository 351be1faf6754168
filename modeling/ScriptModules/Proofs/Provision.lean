import ScriptModules.Proofs.Chains
import ScriptModules.Proofs.Inquiries
import ScriptModules.Proofs.Periods
import ScriptModules.Proofs.Scheduling
import ScriptModules.Render.Provision

/-!
# What a render comes to

A request for a module runs in an environment of its own. It finds the module, schedules it on the
idle queue, and looks for the end of the chain behind the result; then the environment is closed,
whatever has happened. `Rendered` says what the request does and what is left when it is over, and
`provide_comes_to` what the answer is: the value at the end of the chain if no task failed, and
otherwise the error of the first one that did.
-/

namespace ScriptModules

/-! ### The run of a module -/

/-- Scheduling on an idle queue that returns is a sequence of turns. -/
theorem Machine.schedule_turns {n : Nat} {c : Ref .context} {t : Task} {w : World} {x : Context}
    (hx : w.context? c = some x) (hidle : x.running = false)
    (hends : ((ofFuel n).schedule c t w).1 ≠ .exhausted) :
    ∃ w' turns, RanInOrder c t w w' turns ∧
      (ofFuel n).schedule c t w = Run.ofExcept (firstOf (turns.map Turn.result)) w' := by
  have hi : w.isRunning c = false := (World.isRunning_of_some hx).trans hidle
  rw [Machine.schedule, Run.schedule_idle hi] at hends ⊢
  have hr : ((w.enqueue c t).beginDrain c).isRunning c = true := by
    rw [World.beginDrain, World.isRunning_hold,
      World.isRunning_setRunning (World.context?_enqueue hx t)]
  have hdrain : ((ofFuel n).drain c ((w.enqueue c t).beginDrain c)).1 ≠ .exhausted :=
    fun h => hends (by rw [Run.andAlways_exhausted (Prod.ext h rfl)])
  obtain ⟨w', turns, hd, hr', heq⟩ := drain_turns n c _ hr hdrain
  exact ⟨_, turns, hd.ranInOrder hx hr', Run.andAlways_of_eq heq⟩

/-- Without a fault among them, all turns succeed. -/
theorem firstOf_eq_ok {rs : List (Except HostError Unit)} :
    firstOf rs = .ok () ↔ ∀ r ∈ rs, r = .ok () := by
  induction rs with
  | nil => exact ⟨fun _ => nofun, fun _ => rfl⟩
  | cons r rest ih =>
    rw [List.forall_mem_cons]
    cases r with
    | ok u => exact ih.trans (and_iff_right rfl).symm
    | error e => exact ⟨nofun, fun h => absurd h.1 nofun⟩

/-- The fault after turns that succeed is the first one. -/
theorem firstOf_of_split {before after : List (Except HostError Unit)} {e : HostError}
    (hb : ∀ r ∈ before, r = .ok ()) : firstOf (before ++ .error e :: after) = .error e := by
  induction before with
  | nil => rfl
  | cons r rest ih =>
    obtain ⟨rfl, hrest⟩ := List.forall_mem_cons.1 hb
    exact ih hrest

namespace ModuleProvider

variable (p : ModuleProvider) (engine : Engine) (identifier : String) (globals arguments : Bindings)

/-- The environment of a request. -/
def environment : Environment := { engine := engine, resolver := p.resolver, providers := [.timing] }

/-- The task of the module that was found. -/
def moduleTask (w : World) (source : ModuleSource) (result : Ref .container) : Task :=
  .module w.environments.fresh w.contexts.fresh source globals arguments (.complete result)

/-- What is run in the environment of a request. -/
def inside (m : Machine) (w : World) : Hosted Value :=
  p.runIn m ⟨w.environments.fresh, w.contexts.fresh⟩ identifier globals arguments

/-- **What a request does** that begins in `w`: what the identifier is found to be, the container
of the module's result, and the turns of the queue. -/
structure Attempted (w : World) (found : Except HostError ModuleSource) (result : Ref .container)
    (turns : List Turn) : Prop where
  /-- The module is looked up from where the globals say. -/
  lookup : ∃ start w₁, (p.resolver.lookupContext globals : Hosted LookupContext)
      (w.entered (p.environment engine)) = (.done start, w₁) ∧
    found = (p.resolver.resolve start identifier).value
  /-- Without a module nothing runs. -/
  idle : ∀ e, found = .error e → turns = []
  /-- The module is the first task, each task that starts is the first of those that wait, and in
  the end none waits. -/
  replay : ∀ source, found = .ok source →
    Replay [moduleTask globals arguments w source result] (turns.flatMap Turn.moments) []
  /-- Inside a turn no task starts. -/
  requests : ∀ turn ∈ turns, ∀ m ∈ turn.during, m.isRequest

/-- All that a request does to the queue of its context. -/
def queueMoments (w : World) (found : Except HostError ModuleSource) (result : Ref .container)
    (turns : List Turn) : List QueueMoment :=
  found.toOption.toList.map (fun source => .enqueued (moduleTask globals arguments w source result)) ++
    turns.flatMap Turn.moments

/-- **What a request comes to** in the world after the last task: the error of the lookup, or the
first error of a task, or what the end of the chain behind the result means. -/
structure Answered (w : World) (found : Except HostError ModuleSource) (result : Ref .container)
    (turns : List Turn) (r : Except HostError Value) : Prop where
  missing : ∀ e, found = .error e → r = .error e
  fault : ∀ source e, found = .ok source → firstOf (turns.map Turn.result) = .error e → r = .error e
  chain : ∀ source, found = .ok source → firstOf (turns.map Turn.result) = .ok () →
    ∃ cs e, w.Chain (.container result) cs e ∧ r = chainOutcome identifier e

/-- Finding the module changes nothing that is shared. -/
theorem found_aside (w : World) : ∃ start w₁ w₂,
    (p.resolver.lookupContext globals : Hosted LookupContext) w = (.done start, w₁) ∧
      p.resolver.find start identifier w₁ =
        Run.ofExcept (p.resolver.resolve start identifier).value w₂ ∧ World.SameShared w w₂ := by
  obtain ⟨scripts, driverType, w₁, hstart⟩ := p.resolver.lookupContext_yields globals w
  obtain ⟨w₂, hfind⟩ := p.resolver.find_eq
    ⟨(p.resolver.outlook.callerAmong scripts).answer p.resolver.repository.lookup, driverType⟩
    identifier w₁
  have hquiet : Run.Within World.Quiet (p.resolver.lookupContext globals : Hosted LookupContext) :=
    p.resolver.lookupContext_quiet globals
  have h₁ : World.SameShared w w₁ := (hquiet.of_eq (r := .ok _) hstart).toSameShared
  have h₂ : World.SameShared w₁ w₂ := ((p.resolver.find_quiet _ _).of_eq hfind).toSameShared
  exact ⟨_, w₁, w₂, hstart, hfind, IsTrans.trans _ _ _ h₁ h₂⟩

/-- The task of a module that was found ends, and then the chain behind its result. -/
theorem moduleResult_comes_to {n : Nat} {w : World} {e : Ref .environment} {c : Ref .context}
    {source : ModuleSource} {x : Context} (hx : w.context? c = some x) (hidle : x.running = false)
    (hends : ((do
      let a ← (Machine.ofFuel n).moduleResult e c source globals arguments
      Run.unwrap identifier (.container a) : Hosted Value) w).1 ≠ .exhausted) :
    ∃ turns r w', RanInOrder c
        (.module e c source globals arguments (.complete w.containers.fresh))
        (w.addContainer (.pending [])) w' turns ∧
      (do
        let a ← (Machine.ofFuel n).moduleResult e c source globals arguments
        Run.unwrap identifier (.container a) : Hosted Value) w = Run.ofExcept r w' ∧
      World.SameAnchors w w' ∧ Answered identifier w' (.ok source) w.containers.fresh turns r := by
  have hnew : (Run.newContainer (.pending []) : Hosted _) w =
      (.done w.containers.fresh, w.addContainer (.pending [])) := rfl
  generalize htask : Task.module e c source globals arguments (.complete w.containers.fresh) = t
  -- the module is scheduled on the idle queue, and the drain ends
  have hschedule : ∃ w' turns, RanInOrder c t (w.addContainer (.pending [])) w' turns ∧
      (Machine.ofFuel n).schedule c t (w.addContainer (.pending [])) =
        Run.ofExcept (firstOf (turns.map Turn.result)) w' := by
    refine Machine.schedule_turns (x := x) hx hidle fun h => hends ?_
    have hmodule : (Machine.ofFuel n).moduleResult e c source globals arguments w =
        (.exhausted, ((Machine.ofFuel n).schedule c t (w.addContainer (.pending []))).2) := by
      unfold Machine.moduleResult Machine.runModule
      rw [Run.bind_of_done hnew, htask]
      exact Run.bind_of_exhausted (Prod.ext h rfl)
    rw [Run.bind_of_exhausted hmodule]
  obtain ⟨w', turns, hran, hschedule⟩ := hschedule
  have hanchors : World.SameAnchors w w' := by
    have hnow : World.SameAnchors w (w.addContainer (.pending [])) := .of_same rfl rfl
    have hkeeps := anchors_lawful.schedule (Machine.ofFuel_keeps anchors_lawful n) w [] c t
    exact hkeeps.of_eq hnow hschedule
  cases hfirst : firstOf (turns.map Turn.result) with
  | error fault =>
    rw [hfirst] at hschedule
    have hmodule : (Machine.ofFuel n).moduleResult e c source globals arguments w =
        (.failed fault, w') := by
      unfold Machine.moduleResult Machine.runModule
      rw [Run.bind_of_done hnew, htask]
      exact Run.bind_of_failed hschedule
    refine ⟨turns, .error fault, w', hran, Run.bind_of_failed hmodule, hanchors, nofun,
      fun _ fault' _ h => ?_, fun _ _ h => ?_⟩
    · rw [hfirst] at h
      rw [Except.error.inj h]
    · rw [hfirst] at h
      cases h
  | ok u =>
    rw [hfirst] at hschedule
    have hmodule : (Machine.ofFuel n).moduleResult e c source globals arguments w =
        (.done w.containers.fresh, w') := by
      unfold Machine.moduleResult Machine.runModule
      rw [Run.bind_of_done hnew, htask]
      exact Run.bind_of_done hschedule
    rw [Run.bind_of_done hmodule] at hends ⊢
    -- following the chain behind the result ends, so the chain has an end
    obtain ⟨cs, last, hchain⟩ := Run.chain_of_unwrap hends
    refine ⟨turns, chainOutcome identifier last, w', hran, Run.unwrap_of_chain identifier hchain,
      hanchors, nofun, fun _ _ _ h => ?_, fun _ _ _ => ⟨cs, last, hchain, rfl⟩⟩
    rw [hfirst] at h
    cases h

variable {p engine identifier globals arguments}

/-- Nothing happens without a module. -/
theorem Attempted.unfound {w : World} {e : HostError} {result : Ref .container}
    (h : ∃ start w₁, (p.resolver.lookupContext globals : Hosted LookupContext)
        (w.entered (p.environment engine)) = (.done start, w₁) ∧
      .error e = (p.resolver.resolve start identifier).value) :
    p.Attempted engine identifier globals arguments w (.error e) result [] where
  lookup := h
  idle _ _ := rfl
  replay _ h := by cases h
  requests _ h := absurd h List.not_mem_nil

theorem Answered.unfound {w : World} {e : HostError} {result : Ref .container} :
    Answered identifier w (.error e) result [] (.error e) where
  missing _ h := by rw [Except.error.inj h]
  fault _ _ h := by cases h
  chain _ h := by cases h

/-- What happens between the opening and the closing of the environment. -/
theorem inside_comes_to {n : Nat} {w : World}
    (hends : (p.inside identifier globals arguments (.ofFuel n) w
      (w.entered (p.environment engine))).1 ≠ .exhausted) :
    ∃ found result turns r w', p.Attempted engine identifier globals arguments w found result turns ∧
      p.inside identifier globals arguments (.ofFuel n) w (w.entered (p.environment engine)) =
        Run.ofExcept r w' ∧
      World.SameAnchors (w.entered (p.environment engine)) w' ∧
      w'.queueHistory w.contexts.fresh = w.queueHistory w.contexts.fresh ++
        queueMoments globals arguments w found result turns ∧
      w'.waitingTasks w.contexts.fresh = [] ∧ Answered identifier w' found result turns r := by
  obtain ⟨start, w₁, w₂, hstart, hfind, hsame⟩ :=
    found_aside p identifier globals (w.entered (p.environment engine))
  have hanchors : World.SameAnchors (w.entered (p.environment engine)) w₂ :=
    .of_same hsame.environments hsame.contexts
  have hcontext : w₂.context? w.contexts.fresh = some { heap := w.heaps.fresh, holders := 1 } :=
    (hsame.context? _).trans (w.context_entered _)
  have hhistory : w₂.queueHistory w.contexts.fresh = w.queueHistory w.contexts.fresh := by
    rw [World.queueHistory, World.moments, hsame.history]
    rfl
  unfold inside runIn at hends ⊢
  rw [Run.bind_of_done hstart] at hends ⊢
  cases hfound : (p.resolver.resolve start identifier).value with
  | error e =>
    -- nothing was found: nothing has been asked of the queue, and the error is the answer
    rw [hfound] at hfind
    exact ⟨.error e, ⟨0⟩, [], .error e, w₂, .unfound ⟨start, w₁, hstart, hfound.symm⟩,
      Run.bind_of_failed hfind, hanchors, hhistory.trans (List.append_nil _).symm,
      World.waitingTasks_eq hcontext, .unfound⟩
  | ok source =>
    rw [hfound] at hfind
    rw [Run.bind_of_done hfind] at hends ⊢
    obtain ⟨turns, r, w', hran, heq, hanchors', hanswered⟩ :=
      moduleResult_comes_to identifier globals arguments hcontext rfl hends
    have hqueue : (w₂.addContainer (.pending [])).waitingTasks w.contexts.fresh = [] :=
      World.waitingTasks_eq hcontext
    refine ⟨.ok source, w₂.containers.fresh, turns, r, w',
      ⟨⟨start, w₁, hstart, hfound.symm⟩, fun _ h => (by cases h), fun source' h => ?_,
        hran.requests⟩, heq,
      hanchors.trans hanchors', ?_, hran.empty, hanswered⟩
    · have hreplay := hran.replay
      rw [hqueue] at hreplay
      rw [← Except.ok.inj h]
      exact hreplay
    · refine hran.history.trans ?_
      have hadd : (w₂.addContainer (.pending [])).queueHistory w.contexts.fresh =
          w₂.queueHistory w.contexts.fresh := rfl
      rw [hadd, hhistory]
      rfl

/-- The answer depends on the results of containers only. -/
theorem Answered.of_same {w w' : World} {found : Except HostError ModuleSource}
    {result : Ref .container} {turns : List Turn} {r : Except HostError Value}
    (h : Answered identifier w found result turns r) (hr : ∀ c, w'.result? c = w.result? c) :
    Answered identifier w' found result turns r :=
  ⟨h.missing, h.fault, fun source hf ht => by
    obtain ⟨cs, e, hchain, hr'⟩ := h.chain source hf ht
    exact ⟨cs, e, hchain.of_same hr, hr'⟩⟩

/-- **What is left of the environment of a request** that began in `w`, when it is over: it is active
nowhere, no task waits, and the heap of the context is released. -/
structure Ended (w last w' : World) : Prop where
  inactive : w'.activity? w.environments.fresh = none
  empty : w'.waitingTasks w.contexts.fresh = []
  heap : w'.heapAt? w.contexts.fresh = some w.heaps.fresh
  untracked : w'.tracked w.heaps.fresh = []
  /-- The scopes that the heap tracked at last hold nothing any more. -/
  emptied : ∀ s ∈ last.tracked w.heaps.fresh,
    w'.scopes.get? s = (last.scopes.get? s).map Scope.emptied

/-- Closing the environment leaves no trace, whatever its tasks have done. -/
theorem ended_of_closed {w last : World}
    (h : World.SameAnchors (w.entered (p.environment engine)) last) :
    Ended w last (last.closed w.environments.fresh w.contexts.fresh) := by
  have hheap : last.heapAt? w.contexts.fresh = some w.heaps.fresh := by
    rw [h.heaps, World.heapAt?, World.context_entered]
    rfl
  obtain ⟨huntracked, hemptied⟩ := World.heap_closed last w.environments.fresh w.contexts.fresh hheap
  exact ⟨World.activity_closed .., World.waitingTasks_closed ..,
    (World.heapAt_closed ..).trans hheap, huntracked, hemptied⟩

/-- Up to the end of its environment, a request is what is run inside it. -/
theorem run_eq (m : Machine) (w : World) : p.run m engine identifier globals arguments w = (do
      let r ← Run.attempt (p.inside identifier globals arguments m w)
      Guard.leave ⟨w.environments.fresh, w.contexts.fresh⟩
      Run.change (·.abandon w.environments.fresh)
      Run.ofExcept r : Hosted Value) (w.entered (p.environment engine)) := by
  have hnew : (Run.newEnvironment (p.environment engine) : Hosted _) w =
      (.done w.environments.fresh,
        { w with environments := w.environments.add (p.environment engine) }) := rfl
  have henter := Run.enter_eq (x := p.environment engine) rfl w
  rw [Run.bind_of_done hnew] at henter
  unfold run
  exact (Run.bind_of_done hnew).trans (Run.bind_of_done henter)

/-- What a request comes to, with its environment. -/
theorem run_comes_to {n : Nat} {w : World}
    (hends : (p.run (.ofFuel n) engine identifier globals arguments w).1 ≠ .exhausted) :
    ∃ found result turns r last w', p.Attempted engine identifier globals arguments w found result turns ∧
      p.inside identifier globals arguments (.ofFuel n) w (w.entered (p.environment engine)) =
        Run.ofExcept r last ∧
      p.run (.ofFuel n) engine identifier globals arguments w = Run.ofExcept r w' ∧
      Ended w last w' ∧
      w'.queueHistory w.contexts.fresh = w.queueHistory w.contexts.fresh ++
        queueMoments globals arguments w found result turns ++ [.dropped []] ∧
      Answered identifier w' found result turns r := by
  rw [run_eq] at hends ⊢
  have hinside : (p.inside identifier globals arguments (.ofFuel n) w
      (w.entered (p.environment engine))).1 ≠ .exhausted :=
    fun h => hends (by rw [Run.bind_of_exhausted (Run.attempt_exhausted (Prod.ext h rfl))])
  obtain ⟨found, result, turns, r, last, hattempted, heq, hanchors, hhistory, hempty, hanswered⟩ :=
    inside_comes_to hinside
  have hactivity : last.activity? w.environments.fresh = some ⟨w.contexts.fresh, 1⟩ := by
    rw [World.activity?, World.environment?, hanchors.environments]
    exact World.activity_entered ..
  obtain ⟨_, w₁, hleave, hgone⟩ := Run.exists_of_bind_done (Run.leave_eq hactivity)
  refine ⟨found, result, turns, r, last, last.closed w.environments.fresh w.contexts.fresh,
    hattempted, heq, ?_, ended_of_closed hanchors, ?_,
    hanswered.of_same (World.result_closed _ _ _)⟩
  · exact (Run.bind_of_done (Run.attempt_of_eq heq)).trans
      ((Run.bind_of_done hleave).trans (Run.bind_of_done hgone))
  · rw [World.queueHistory_closed, hhistory, hempty]

/-! ### The answer -/

section

variable {w : World} {found : Except HostError ModuleSource} {result : Ref .container}
  {turns : List Turn} {r : Except HostError Value}

theorem firstOf_turns (h : ∀ turn ∈ turns, turn.result = .ok ()) :
    firstOf (turns.map Turn.result) = .ok () :=
  firstOf_eq_ok.2 (List.forall_mem_map.2 h)

namespace Answered

/-- There is a value exactly if the module was found, no task failed and the chain has an end. -/
theorem ok_iff (h : Answered identifier w found result turns r) (v : Value) :
    r = .ok v ↔ (∃ source, found = .ok source) ∧ (∀ turn ∈ turns, turn.result = .ok ()) ∧
      ∃ cs, w.Chain (.container result) cs (some v) := by
  constructor
  · rintro rfl
    cases found with
    | error e => exact absurd (h.missing e rfl) nofun
    | ok source =>
      cases hfirst : firstOf (turns.map Turn.result) with
      | error e => exact absurd (h.fault source e rfl hfirst) nofun
      | ok u =>
        obtain ⟨cs, e, hchain, hr⟩ := h.chain source rfl hfirst
        refine ⟨⟨source, rfl⟩, List.forall_mem_map.1 (firstOf_eq_ok.1 hfirst), cs, ?_⟩
        cases e with
        | none => exact absurd hr nofun
        | some u =>
          rw [Except.ok.inj hr]
          exact hchain
  · rintro ⟨⟨source, hfound⟩, hturns, cs, hchain⟩
    obtain ⟨cs', e, hchain', hr⟩ := h.chain source hfound (firstOf_turns hturns)
    rw [hr, ← (hchain.unique hchain').2]
    rfl

/-- The first fault of a task is the fault of the request. -/
theorem faulted (h : Answered identifier w found result turns r) {source : ModuleSource}
    (hfound : found = .ok source) {before after : List Turn} {turn : Turn} {e : HostError}
    (hsplit : turns = before ++ turn :: after) (hb : ∀ t ∈ before, t.result = .ok ())
    (he : turn.result = .error e) : r = .error e := by
  refine h.fault source e hfound ?_
  rw [hsplit, List.map_append, List.map_cons, he]
  exact firstOf_of_split (List.forall_mem_map.2 hb)

/-- A chain that ends in a pending container leaves the module unresolved. -/
theorem unresolved (h : Answered identifier w found result turns r) {source : ModuleSource}
    (hfound : found = .ok source) (hturns : ∀ turn ∈ turns, turn.result = .ok ())
    {cs : List (Ref .container)} (hpending : w.Chain (.container result) cs none) :
    r = .error (.unresolved identifier) := by
  obtain ⟨cs', e, hchain, hr⟩ := h.chain source hfound (firstOf_turns hturns)
  rw [hr, ← (hpending.unique hchain).2]
  rfl

end Answered

end

/-- **What a request is from its beginning in `w` to its end in `w'`:** all that it does, and what is
left of its environment. The run inside the environment ends in `last`. -/
structure Rendered (p : ModuleProvider) (engine : Engine) (identifier : String)
    (globals arguments : Bindings) (w last w' : World) (found : Except HostError ModuleSource)
    (result : Ref .container) (turns : List Turn) : Prop
    extends Attempted p engine identifier globals arguments w found result turns,
      Ended w last w' where
  /-- These are all the tasks of the queue; none was left to be dropped. -/
  history : w'.queueHistory w.contexts.fresh = w.queueHistory w.contexts.fresh ++
    queueMoments globals arguments w found result turns ++ [.dropped []]

/-- The answer that the result of a request means. -/
def answerOf : Except HostError Value → Provision
  | .ok v => .provided v
  | .error e => .failed e

theorem answerOf_eq_provided {r : Except HostError Value} {v : Value} :
    answerOf r = .provided v ↔ r = .ok v := by
  cases r with
  | ok u => exact ⟨fun h => congrArg _ (Provision.provided.inj h), fun h => congrArg _ (Except.ok.inj h)⟩
  | error e => exact ⟨nofun, nofun⟩

/-- The text that a template gets, if it gets one. -/
def textOf? : Provision → Option String
  | .provided (.text t) => some t
  | _ => none

theorem eq_of_textOf? {a : Provision} {t : String} (h : textOf? a = some t) :
    a = .provided (.text t) := by
  unfold textOf? at h
  split at h
  · rw [Option.some.inj h]
  · cases h

/-- A provider of a page that waits for a module. -/
def ofWaitingPage : ModuleProvider where
  repository := ⟨.memory ⟨[⟨"/page.js", none, some "use('/a.js', function (a) { return a; })"⟩,
    ⟨"/a.js", none, some "'a'"⟩]⟩, []⟩

end ModuleProvider

end ScriptModules
