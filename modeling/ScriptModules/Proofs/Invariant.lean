import ScriptModules.Machine.Fuel
import ScriptModules.Proofs.Evaluator

/-!
# Invariants of machines

Calls, listeners and queues run into one another, so a law of one of them has to be carried through
all three. `Machine.ofFuel_keeps` does this once: an invariant that is lawful (`Lawful`) is kept by
every activity of every machine.

An invariant may speak of the listeners *in hand*: one-shot continuations that the activity under
way has taken out of the world and is yet to run. Completing a container takes its listeners in
hand, a task that starts takes along the listener that it carries, and running a listener or
registering it uses it up. A listener that is never run may be dropped, but none can be run twice;
that is all that laws about counting need. It may also speak of the values that listeners are told:
a container tells its listeners what it likes, and a module none but plain values.

An invariant is a family, so that it can also relate the world to one at the beginning.
-/

namespace ScriptModules

set_option linter.unusedSectionVars false

/-- The listeners that a task carries. -/
def Task.carried : Task → List Listener
  | .module _ _ _ _ _ then_ => [then_]
  | .useCallback _ _ _ c => [.complete c]
  | .timer .. => []
  | .routine r => [.routine r]

/-- The listeners that wait for a container. -/
def Container.waiting : Container → List Listener
  | .pending ls => ls
  | .resolved _ => []

/-! ### Making values -/

section

variable {ε : Type} {P E : World → Prop}
  (aside : ∀ {w w' : World}, World.Aside w w' → P w → P w')
  (add : ∀ {w : World} (x : Container), x.waiting = [] → P w → P (w.addContainer x))

include aside add

mutual

/-- Making a value succeeds, and keeps what does not mind new containers without listeners. -/
theorem Blueprint.make_supplies : ∀ b : Blueprint, Run.Supplies P E (b.make : Run ε Value)
  | .undefined | .null | .boolean _ | .number _ | .text _ => .pure
  | .list items =>
    .bind (Blueprint.makeAll_supplies items) fun _ => .bind
      (.changeGet fun _ => aside (.of_same ⟨rfl, rfl, rfl, rfl, rfl, rfl⟩ rfl rfl rfl rfl))
      fun _ => .pure
  | .object properties =>
    .bind (Blueprint.makeFields_supplies properties) fun _ => .bind
      (.changeGet fun _ => aside (.of_same ⟨rfl, rfl, rfl, rfl, rfl, rfl⟩ rfl rfl rfl rfl))
      fun _ => .pure
  | .function _ _ none =>
    .bind (.changeGet fun w => aside (w.addFunction_aside (.host _) nofun)) fun _ => .pure
  | .function _ _ (some returns) =>
    .bind (Blueprint.make_supplies returns) fun _ => .bind
      (.changeGet fun w => aside (w.addFunction_aside (.host _) nofun)) fun _ => .pure
  | .pending => .bind (.changeGet fun _ => add _ rfl) fun _ => .pure
  | .resolved result =>
    .bind (Blueprint.make_supplies result) fun _ => .bind (.changeGet fun _ => add _ rfl) fun _ =>
      .pure
  | .saved _ => .read
  | .numbered _ => .read

theorem Blueprint.makeAll_supplies : ∀ bs : List Blueprint,
    Run.Supplies P E (Blueprint.makeAll bs : Run ε _)
  | [] => .pure
  | b :: rest =>
    .bind (Blueprint.make_supplies b) fun _ => .bind (Blueprint.makeAll_supplies rest) fun _ => .pure

theorem Blueprint.makeFields_supplies : ∀ bs : List (String × Blueprint),
    Run.Supplies P E (Blueprint.makeFields bs : Run ε _)
  | [] => .pure
  | (_, b) :: rest =>
    .bind (Blueprint.make_supplies b) fun _ => .bind (Blueprint.makeFields_supplies rest) fun _ =>
      .pure

end

end

/-! ### Invariants -/

/-- **A family of properties of worlds,** given the listeners in hand. -/
structure Invariant (ι : Type) where
  holds : ι → List Listener → World → Prop
  /-- What is known of a world that a run without end has reached. -/
  lost : World → Prop
  /-- The queues that may be drained. -/
  drains : Ref .context → Prop
  /-- The values that a listener may be told. -/
  tells : ι → Listener → Value → World → Prop := fun _ _ _ _ => True

variable {ι : Type}

/-- A machine keeps an invariant in all its activities; telling a listener uses it up. -/
structure Machine.Keeps (V : Invariant ι) (m : Machine) : Prop where
  call : ∀ i hand f this arguments, Run.Keeps (V.holds i hand) V.lost (m.call f this arguments)
  notify : ∀ i hand l v, Run.Leads (fun w => V.holds i (l :: hand) w ∧ V.tells i l v w)
    (m.notify l v) (fun _ => V.holds i hand) V.lost
  drain : ∀ i hand c, V.drains c → Run.Keeps (V.holds i hand) V.lost (m.drain c)

/-- What an invariant must bear of evaluation, if calls keep it. -/
structure Evaluating (V : Invariant ι) : Prop where
  closure : ∀ {call : CallSemantics},
    (∀ i hand f this arguments, Run.Keeps (V.holds i hand) V.lost (call f this arguments)) →
    ∀ i hand f c this arguments,
      Run.Leads (fun w => V.holds i hand w ∧ w.functions.get? f = some (.closure c))
        (c.invoke call this arguments) (fun _ => V.holds i hand) V.lost
  evaluate : ∀ {call : CallSemantics},
    (∀ i hand f this arguments, Run.Keeps (V.holds i hand) V.lost (call f this arguments)) →
    ∀ i hand (p : Program) b, Run.Keeps (V.holds i hand) V.lost (p.evaluate call b)

/-- **What an invariant must bear** to be kept by machines: every step that any activity takes. -/
structure Lawful (V : Invariant ι) : Prop extends Evaluating V where
  /-- A listener in hand may be dropped. -/
  drop : ∀ {i l hand w}, V.holds i (l :: hand) w → V.holds i hand w
  lost : ∀ {i hand w}, V.holds i hand w → V.lost w
  aside : ∀ {i hand w w'}, World.Aside w w' → V.holds i hand w → V.holds i hand w'
  call : ∀ {i hand w} k, V.holds i hand w → V.holds i hand (w.mark (.call k))
  /-- Whoever makes a container may complete it. -/
  newPending : ∀ {i hand w}, V.holds i hand w →
    V.holds i (.complete w.containers.fresh :: hand) (w.addContainer (.pending []))
  newResolved : ∀ {i hand w} v, V.holds i hand w → V.holds i hand (w.addContainer (.resolved v))
  newNumbered : ∀ {i hand w}, V.holds i hand w →
    V.holds i hand ((w.addContainer (.pending [])).number w.containers.fresh)
  /-- The host may complete the containers that it has numbered. -/
  numbered : ∀ {i hand w k c}, w.numbered? k = some c → V.holds i hand w →
    V.holds i (.complete c :: hand) w
  /-- The host may run code of its own at any time. -/
  routine : ∀ {i hand w} r, V.holds i hand w → V.holds i (.routine r :: hand) w
  openGathering : ∀ {i hand w} n f this script, V.holds i hand w →
    V.holds i ((List.range' 0 n).map (.gather w.gatherings.fresh) ++ hand)
      (w.openGathering n f this script)
  forsake : ∀ {i l hand w}, V.holds i (l :: hand) w → V.holds i hand (w.forsake l)
  clearQueue : ∀ {i hand w} c, V.holds i hand w → V.holds i hand (w.clearQueue c)
  dropContext : ∀ {i hand w} c, V.holds i hand w → V.holds i hand (w.dropContext c)
  complete : ∀ {m : Machine}, m.Keeps V → ∀ i hand c v,
    Run.Leads (V.holds i (.complete c :: hand)) (m.complete c v) (fun _ => V.holds i hand) V.lost
  listen : ∀ {m : Machine}, m.Keeps V → ∀ i hand c l,
    Run.Leads (V.holds i (l :: hand)) (m.listen c l) (fun _ => V.holds i hand) V.lost
  gather : ∀ {m : Machine}, m.Keeps V → ∀ i hand g slot v,
    Run.Leads (fun w => V.holds i (.gather g slot :: hand) w ∧ V.tells i (.gather g slot) v w)
      (m.gather g slot v) (fun _ => V.holds i hand) V.lost
  schedule : ∀ {m : Machine}, m.Keeps V → ∀ i hand c t,
    Run.Leads (V.holds i (t.carried ++ hand)) (m.schedule c t) (fun _ => V.holds i hand) V.lost
  drain : ∀ {m : Machine}, m.Keeps V →
    (∀ i hand t, Run.Leads (V.holds i (t.carried ++ hand)) (m.runTask t) (fun _ => V.holds i hand)
      V.lost) →
    ∀ i hand c, V.drains c → Run.Keeps (V.holds i hand) V.lost (Run.drainBy m.runTask m.drain c)
  /-- Any listener may be told what is no container. -/
  tellsPlain : ∀ {i l hand w v}, (∀ c, v ≠ .container c) → V.holds i (l :: hand) w →
    V.tells i l v w := by exact fun _ _ => trivial

namespace Evaluating

/-- An invariant that only speaks of what scripts share with their host bears evaluation. -/
theorem of_shared {V : Invariant ι}
    (shared : ∀ {i hand w w'}, World.SameShared w w' → V.holds i hand w → V.holds i hand w')
    (call : ∀ {i hand w} k, V.holds i hand w → V.holds i hand (w.mark (.call k)))
    (endless : ∀ {i hand w}, V.holds i hand w → V.lost (w.mark (.call .endless))) :
    Evaluating V := by
  have within : ∀ {i hand} {ε α : Type} [Faults ε] {x : Run ε α}, x.Within World.SameShared →
      Run.Keeps (V.holds i hand) V.lost x := fun h =>
    h.leads (fun _ _ hw hs => shared hs hw) fun _ => endless
  have congruence : ∀ i hand, Congruence fun x _ => Run.Keeps (V.holds i hand) V.lost x :=
    fun i hand =>
      { quiet := fun h => within (h.mono fun _ _ hq => hq.toSameShared)
        bind := Run.Keeps.bind
        noticing := fun h => h.onFailure fun _ _ => call _
        inward := fun h => within (h.mono fun _ _ hi => hi.toSameShared) }
  constructor
  · intro call hc i hand f c this arguments
    refine Run.Leads.strengthen (P := V.holds i hand) ?_ fun _ => And.left
    refine Run.Keeps.bind Run.Keeps.read fun h => ?_
    refine Run.Keeps.bind (within (Run.enterCall_shared h)) fun _ => ?_
    -- the body runs between entering and leaving the call, whatever becomes of it
    have hr := @Closure.run_congr _ (congruence i hand) call call (hc i hand) c this
      arguments
    exact hr.andAlways fun w => shared (w.leaveCall_shared h)
  · intro call hc i hand p b
    have hr := fun s => @Program.run_congr _ (congruence i hand) call call (hc i hand) p s
    unfold Program.evaluate
    split
    · next h _ => exact Run.Keeps.bind (within (Run.newRootScope_shared b h)) hr
    · refine Run.Keeps.bind (within Run.newHeap_shared) fun h => ?_
      refine Run.Keeps.bind (within (Run.newRootScope_shared b h)) fun s => ?_
      exact (hr s).andAlways fun w => shared (w.release_shared h)

end Evaluating

namespace Lawful

variable {V : Invariant ι} (L : Lawful V) {i : ι} {hand : List Listener} {ε α : Type} [Faults ε]

include L

theorem dropAll {ls : List Listener} {w : World} (h : V.holds i (ls ++ hand) w) :
    V.holds i hand w := by
  induction ls with
  | nil => exact h
  | cons l rest ih => exact ih (L.drop h)

theorem within_keeps {x : Run ε α} (h : x.Within World.Aside) :
    Run.Keeps (V.holds i hand) V.lost x :=
  h.leads (fun _ _ hw hs => L.aside hs hw) fun _ hw => L.lost (L.call .endless hw)

theorem quiet_keeps {x : Run ε α} (h : x.Within World.Quiet) :
    Run.Keeps (V.holds i hand) V.lost x :=
  L.within_keeps (Run.aside_of_quiet h)

theorem sequential (i : ι) (hand : List Listener) :
    Sequential fun x _ => Run.Keeps (V.holds i hand) V.lost x where
  quiet := L.quiet_keeps
  bind := Run.Keeps.bind
  noticing h := h.onFailure fun _ _ => L.call _

/-! ### Activities of a machine -/

variable {m : Machine} (M : m.Keeps V)

include M

theorem engine (e : Engine) (script text : String) (b : Bindings) :
    Run.Keeps (V.holds i hand) V.lost (e.evaluate m.call script text b) := by
  unfold Engine.evaluate
  -- what parsing comes to does not matter here, and must not be computed
  generalize Program.compile script text = p
  split
  · refine Run.Keeps.bind (L.quiet_keeps (Run.log_quiet _)) fun _ => ?_
    exact Run.Keeps.bind Run.Keeps.ofExcept fun p => L.evaluate M.call i hand p b
  · exact Run.Keeps.bind Run.Keeps.ofExcept fun p => L.evaluate M.call i hand p b

theorem callFor (script : String) (f : Ref .function) (this : Value) (arguments : Array Value) :
    Run.Keeps (V.holds i hand) V.lost (m.callFor script f this arguments) :=
  Run.Keeps.inName (M.call i hand f this arguments) fun k _ => L.call k

theorem scheduleByHandle (c : Ref .context) (t : Task) :
    Run.Leads (V.holds i (t.carried ++ hand)) (m.scheduleByHandle c t) (fun _ => V.holds i hand)
      V.lost := by
  refine Run.Leads.bind (Q := fun _ => V.holds i (t.carried ++ hand)) Run.Keeps.read (fun alive => ?_)
    fun _ _ => L.dropAll
  -- a context that is gone refuses the task: the listeners in hand are dropped
  split
  · exact L.schedule M i hand c t
  · exact Run.Leads.fail fun _ => L.dropAll

theorem timer (t : Timer) (context : Ref .context) (arguments : Array Value) :
    Run.Keeps (V.holds i hand) V.lost (t.invoke m context arguments) := by
  unfold Timer.invoke
  split
  · next f _ =>
    exact Run.Keeps.bind (Run.Keeps.mapError (L.scheduleByHandle M context (.timer t f _)))
      fun _ => Run.Keeps.pure
  · exact Run.Keeps.fail

theorem useCallback (site : UseSite) (f : Ref .function) :
    Run.Keeps (V.holds i hand) V.lost (site.useCallback m f) := by
  -- the new container is in hand until the task that completes it is in the queue
  refine Run.Leads.bind_changeGet (R := fun c => V.holds i (.complete c :: hand))
    (fun w => L.newPending) fun c => ?_
  refine Run.Leads.bind (Q := fun _ => V.holds i (.complete c :: hand))
    (L.quiet_keeps site.script_quiet) (fun script => ?_) fun _ _ => L.drop
  refine Run.Leads.bind (Q := fun _ => V.holds i (.complete c :: hand))
    (L.quiet_keeps site.liveContext_quiet) (fun context => ?_) fun _ _ => L.drop
  exact Run.Leads.bind (L.schedule M i hand context (.useCallback f site.this script c))
    (fun _ => Run.Keeps.pure) fun _ _ => id

theorem runAll (site : UseSite) (context : Ref .context) (g : Ref .gathering)
    (sources : List ModuleSource) (slot : Nat) :
    Run.Leads (V.holds i ((List.range' slot sources.length).map (.gather g) ++ hand))
      (site.runAll m context g slot sources) (fun _ => V.holds i hand) V.lost := by
  induction sources generalizing slot with
  | nil => exact Run.Keeps.pure
  | cons source rest ih =>
    -- one token for each slot from `slot` on is in hand; this task takes the first of them
    rw [List.length_cons, List.range'_succ, List.map_cons, List.cons_append]
    exact Run.Leads.bind (L.schedule M i _ context
        (.module site.environment context source _ {} (.gather g slot)))
      (fun _ => ih (slot + 1)) fun _ _ => L.dropAll

theorem useModules (site : UseSite) (dependencies : List String) (f : Ref .function) :
    Run.Keeps (V.holds i hand) V.lost (site.useModules m dependencies f) := by
  -- up to the gathering, things are only looked up
  refine Run.Keeps.bind (L.quiet_keeps site.liveEnvironment_quiet) fun environment => ?_
  refine Run.Keeps.bind (L.quiet_keeps site.liveContext_quiet) fun context => ?_
  refine Run.Keeps.bind (L.quiet_keeps (environment.resolver.lookupContext_quiet _)) fun start => ?_
  refine Run.Keeps.bind (L.quiet_keeps (environment.resolver.findAll_quiet _ _)) fun sources => ?_
  refine Run.Keeps.bind (L.quiet_keeps site.script_quiet) fun script => ?_
  -- opening it brings one token for each module
  refine Run.Leads.bind_changeGet
    (R := fun p => V.holds i ((List.range' 0 sources.length).map (.gather p.1) ++ hand))
    (fun w => L.openGathering _ f site.this script) fun p => ?_
  exact Run.Leads.bind (L.runAll M site context p.1 sources 0) (fun _ => Run.Keeps.pure) fun _ _ => id

theorem use (site : UseSite) (arguments : Array Value) :
    Run.Keeps (V.holds i hand) V.lost (site.invoke m arguments) := by
  refine Run.Keeps.bind (Run.Keeps.mapError ?_) fun _ => Run.Keeps.pure
  unfold UseSite.apply
  split
  · exact Run.Keeps.fail
  · exact Run.Keeps.bind (L.quiet_keeps (UseSite.callbackOf_quiet _)) fun f => L.useCallback M site f
  · refine Run.Keeps.bind (L.quiet_keeps (UseSite.callbackOf_quiet _)) fun f => ?_
    refine Run.Keeps.bind (L.quiet_keeps (UseSite.dependencyNames_quiet _)) fun names => ?_
    split
    · exact L.useCallback M site f
    · exact L.useModules M site _ f

theorem callable (r : Ref .function) (f : Callable) (this : Value) (arguments : Array Value) :
    Run.Leads (fun w => V.holds i hand w ∧ w.functions.get? r = some f) (f.invoke m this arguments)
      (fun _ => V.holds i hand) V.lost := by
  cases f with
  | closure c => exact L.closure M.call i hand r c this arguments
  | listMethod method l =>
    exact (@ListMethod.invoke_congr _ (L.sequential i hand) m.call m.call (M.call i hand) method l
      arguments).strengthen fun _ => And.left
  | textMethod method s =>
    exact (L.quiet_keeps (method.invoke_quiet s arguments)).strengthen fun _ => And.left
  | console method script =>
    exact (L.quiet_keeps (method.invoke_quiet script arguments)).strengthen fun _ => And.left
  -- the fault of a function that calls into the host is remembered
  | timer t context =>
    exact ((L.timer M t context arguments).onFailure fun _ _ => L.call _).strengthen fun _ => And.left
  | use site =>
    exact ((L.use M site arguments).onFailure fun _ _ => L.call _).strengthen fun _ => And.left
  | host h =>
    have hkeeps : Run.Keeps (V.holds i hand) V.lost (h.invoke this arguments) :=
      h.invoke_keeps (fun _ _ hq => L.aside hq.toAside) this arguments
    exact (hkeeps.onFailure fun _ _ => L.call _).strengthen fun _ => And.left

theorem invoke (f : Ref .function) (this : Value) (arguments : Array Value) :
    Run.Keeps (V.holds i hand) V.lost (m.invoke f this arguments) := by
  refine Run.Leads.bind_read fun x => ?_
  cases x with
  | none => exact Run.Leads.pure fun _ => And.left
  | some x =>
    -- the function is still what it was when the call has been remembered
    refine Run.Leads.bind_mark
      (R := fun w => V.holds i hand w ∧ w.functions.get? f = some x)
      (fun w hw => ⟨L.call _ hw.1, hw.2⟩) ?_
    exact (L.callable M f x this arguments).andAlways fun _ w => L.call .left

/-! ### The host's code -/

omit M in
theorem make (b : Blueprint) : Run.Keeps (V.holds i hand) V.lost (b.make : Run ε Value) := by
  refine (b.make_supplies L.aside fun {w} x hx hw => ?_).keeps
  rcases x with ls | v
  · obtain rfl : ls = [] := hx
    exact L.drop (L.newPending hw)
  · exact L.newResolved v hw

omit M in
theorem unwrap (script : String) (v : Value) :
    Run.Keeps (V.holds i hand) V.lost (Run.unwrap script v) := by
  refine Run.Keeps.bind Run.Keeps.read fun size => ?_
  -- containers may hold containers: follow them by induction on the fuel, from any value
  generalize size + 1 = fuel
  induction fuel generalizing v with
  | zero =>
    cases v with
    | container c => exact Run.Leads.exhausted fun _ => L.lost
    | _ => exact Run.Keeps.pure
  | succ fuel ih =>
    cases v with
    | container c =>
      refine Run.Keeps.bind Run.Keeps.read fun r => ?_
      split
      · exact ih _
      · exact Run.Keeps.fail
    | _ => exact Run.Keeps.pure

omit M in
/-- Answering whether a run succeeded keeps what the run keeps. -/
theorem answering {hand' : List Listener} {x : Hosted Unit}
    (h : Run.Leads (V.holds i hand') x (fun _ => V.holds i hand) V.lost) :
    Run.Leads (V.holds i hand') (Run.answering x) (fun _ => V.holds i hand) V.lost :=
  Run.Leads.bind_mark (fun _ => L.call .acting) (Run.Leads.bind_attempt h fun _ =>
    Run.Leads.bind_mark (fun _ => L.call _) Run.Keeps.pure)

omit M in
/-- The host may complete a container that it finds under a number. -/
theorem onNumbered {k : Nat} {f : Ref .container → Hosted Answer}
    {Q : Except HostError Answer → World → Prop}
    (hf : ∀ c, Run.Leads (V.holds i (.complete c :: hand)) (f c) Q V.lost)
    (hn : ∀ r w, V.holds i hand w → Q r w) :
    Run.Leads (V.holds i hand) (Run.onNumbered k f) Q V.lost := by
  refine Run.Leads.bind_read fun c => ?_
  cases c with
  | some c => exact (hf c).strengthen fun w hw => L.numbered hw.2 hw.1
  | none => exact Run.Leads.pure fun w hw => hn _ w hw.1

theorem perform (a : Action) : Run.Keeps (V.holds i hand) V.lost (a.perform m) := by
  have onContext : ∀ f : Ref .context → Hosted Answer,
      (∀ c, Run.Keeps (V.holds i hand) V.lost (f c)) →
      Run.Keeps (V.holds i hand) V.lost (Run.onContext f) := by
    intro f hf
    refine Run.Keeps.bind Run.Keeps.read fun c => ?_
    split
    · exact hf _
    · exact Run.Keeps.pure
  have onHandle : ∀ f : Ref .context → Hosted Answer,
      (∀ c, Run.Keeps (V.holds i hand) V.lost (f c)) →
      Run.Keeps (V.holds i hand) V.lost (Run.onHandle f) := by
    intro f hf
    refine Run.Keeps.bind Run.Keeps.read fun c => ?_
    split
    · exact hf _
    · exact Run.Keeps.pure
  cases a with
  | newContainer =>
    exact Run.Keeps.bind (fun w hw => L.newNumbered hw) fun _ => Run.Keeps.pure
  -- the host completes only what it has numbered
  | complete k v | callback k v =>
    refine Run.Keeps.bind (L.make v) fun v => L.onNumbered (fun c => ?_) fun _ _ => id
    exact L.answering (L.complete M i hand c v)
  -- both containers come in hand; only the completion of the first is registered
  | chain k j =>
    refine L.onNumbered (fun target => L.onNumbered (fun source => ?_) fun _ _ => L.drop)
      fun _ _ => id
    exact L.answering ((L.listen M i hand source (.complete target)).strengthen fun _ => L.drop)
  | listen k r =>
    refine L.onNumbered (fun c => ?_) fun _ _ => id
    exact L.answering ((L.listen M i hand c (.routine r)).strengthen fun w hw => L.routine r (L.drop hw))
  | result k | isCompleted k =>
    exact L.onNumbered (fun c => Run.Leads.read fun _ => L.drop) fun _ _ => id
  | same k j => exact Run.Keeps.read
  | adapt k =>
    refine L.onNumbered (fun c => ?_) fun _ _ => id
    exact (Run.Keeps.bind (Run.Keeps.attempt (L.unwrap hostScript _)) fun _ =>
      Run.Keeps.read).strengthen fun _ => L.drop
  | schedule r =>
    refine Run.Keeps.bind Run.Keeps.read fun c => ?_
    split
    · exact L.answering ((L.schedule M i hand _ (.routine r)).strengthen fun w => L.routine r)
    · exact Run.Keeps.pure
  | scheduleByHandle r =>
    exact onHandle _ fun c =>
      L.answering ((L.scheduleByHandle M c (.routine r)).strengthen fun w => L.routine r)
  | pending | isRunning => exact onContext _ fun c => Run.Keeps.read
  | clear =>
    exact onContext _ fun c => Run.Keeps.bind Run.Keeps.read fun n =>
      Run.Keeps.bind (Run.Leads.change fun w => L.clearQueue c) fun _ => Run.Keeps.pure
  | upgrade => exact onHandle _ fun c => Run.Keeps.read
  | drop =>
    exact onContext _ fun c =>
      Run.Keeps.bind (Run.Leads.change fun w => L.dropContext c) fun _ => Run.Keeps.pure

theorem performAll (tag : Json) (actions : List Action) :
    Run.Keeps (V.holds i hand) V.lost (Routine.performAll m tag actions) := by
  induction actions with
  | nil => exact Run.Keeps.pure
  | cons a rest ih =>
    exact Run.Keeps.bind (L.perform M a) fun _ =>
      Run.Keeps.bind (L.quiet_keeps (Run.log_quiet _)) fun _ => ih

omit M in
theorem finish (fails : Option HostError) :
    Run.Keeps (V.holds i hand) V.lost (Routine.finish fails) := by
  cases fails with
  | some e => exact Run.Leads.bind_mark (fun _ => L.call _) Run.Keeps.fail
  | none => exact Run.Keeps.pure

/-! ### Listeners and tasks -/

theorem tell (l : Listener) (v : Value) :
    Run.Leads (fun w => V.holds i (l :: hand) w ∧ V.tells i l v w) (m.tell l v)
      (fun _ => V.holds i hand) V.lost := by
  cases l with
  | complete c => exact (L.complete M i hand c v).strengthen fun _ => And.left
  | gather g slot => exact L.gather M i hand g slot v
  -- the host listens and completes nothing: its place in hand is given up
  | deliver tag fails =>
    refine Run.Leads.strengthen ?_ fun _ hw => L.drop hw.1
    exact Run.Keeps.bind Run.Keeps.read fun _ =>
      Run.Keeps.bind (L.quiet_keeps (Run.log_quiet _)) fun _ => L.finish fails
  | routine r =>
    obtain ⟨tag, actions, fails⟩ := r
    refine Run.Leads.strengthen ?_ fun _ hw => L.drop hw.1
    exact Run.Keeps.bind Run.Keeps.read fun _ =>
      Run.Keeps.bind (L.quiet_keeps (Run.log_quiet _)) fun _ =>
        Run.Keeps.bind (L.performAll M tag actions) fun _ => L.finish fails

theorem handOn (then_ : Listener) (r : Except HostError Value) :
    Run.Leads (V.holds i (then_ :: hand)) (m.handOn then_ r) (fun _ => V.holds i hand) V.lost := by
  unfold Machine.handOn
  split
  -- a container: the listener waits for it
  · exact L.listen M i hand _ then_
  -- a plain value: it is told at once
  · next v hv =>
    exact (M.notify i hand then_ v).strengthen fun w hw => ⟨hw, L.tellsPlain (fun c => hv c) hw⟩
  -- an error: it is never told
  · exact Run.Leads.bind_change (R := V.holds i hand) (fun w => L.forsake) Run.Keeps.fail

theorem moduleValue (r : Ref .environment) (e : Environment) (context : Ref .context)
    (source : ModuleSource) (globals arguments : Bindings) :
    Run.Keeps (V.holds i hand) V.lost (e.moduleValue m r context source globals arguments) := by
  refine Run.Keeps.bind (L.within_keeps Exports.fresh_aside) fun x => ?_
  refine Run.Keeps.bind (L.within_keeps (e.moduleBindings_aside r context source _ _ x)) fun b => ?_
  refine Run.Keeps.bind (Run.Keeps.inName ?_ fun k _ => L.call k) fun v => Run.Keeps.read
  exact L.engine M e.engine source.name source.content b

theorem runTask (t : Task) :
    Run.Leads (V.holds i (t.carried ++ hand)) (m.runTask t) (fun _ => V.holds i hand) V.lost := by
  cases t with
  | module r context source globals arguments then_ =>
    refine Run.Leads.bind (Q := fun _ => V.holds i (then_ :: hand)) Run.Keeps.read (fun e => ?_)
      fun _ _ => L.drop
    split
    · exact L.handOn M then_ _
    · exact Run.Leads.bind_attempt (L.moduleValue M r _ context source globals arguments) fun v =>
        L.handOn M then_ v
  | useCallback f this script c =>
    exact Run.Leads.bind (Q := fun _ => V.holds i (.complete c :: hand)) (L.callFor M script f this _)
      (fun v => L.complete M i hand c v) fun _ _ => L.drop
  | timer t f arguments => exact Run.Keeps.bind (L.callFor M _ f _ _) fun _ => Run.Keeps.pure
  | routine r =>
    obtain ⟨tag, actions, fails⟩ := r
    refine Run.Leads.strengthen ?_ fun _ => L.drop
    exact Run.Keeps.bind (L.quiet_keeps (Run.log_quiet _)) fun _ =>
      Run.Keeps.bind (L.performAll M tag actions) fun _ =>
        Run.Keeps.bind (L.quiet_keeps (Run.log_quiet _)) fun _ => L.finish fails

end Lawful

/-- **Machines keep what is lawful.** -/
theorem Machine.ofFuel_keeps {V : Invariant ι} (L : Lawful V) (n : Nat) : (ofFuel n).Keeps V := by
  induction n with
  | zero =>
    exact ⟨fun _ _ _ _ _ => Run.Leads.exhausted fun _ => L.lost,
      fun _ _ _ _ => Run.Leads.exhausted fun _ hw => L.lost hw.1,
      fun _ _ _ _ => Run.Leads.exhausted fun _ => L.lost⟩
  -- each activity runs the others on a machine with one unit less
  | succ n ih =>
    exact ⟨fun i hand => L.invoke ih, fun i hand => L.tell ih,
      L.drain ih fun i hand => L.runTask ih⟩

end ScriptModules
