import ScriptModules.Proofs.Steps

/-!
# The order of tasks

What a queue goes through is a list of moments: tasks are enqueued, started and finished, and
waiting tasks are dropped. `Replay` says which lists of moments a queue can go through, and
`Replay.order` that then tasks start in the order in which they were enqueued, each once, and that
only dropped ones are left out.

The moments of a drain come in turns (`Turn`): a task is started, the queue is asked to take or
drop tasks while it runs (`QueueMoment.isRequest`), and it is finished before the next one starts.
That nothing else happens to the queue during a turn is an invariant of machines
(`turn_lawful`): a queue that is being drained is drained by nobody else, so whatever the task
does, even through other queues, only adds requests.

The main statement is `Machine.schedule_in_order`.
-/

namespace ScriptModules

/-! ### The moments of one queue -/

/-- The moment of a queue in something that happened. -/
def Moment.ofQueue? (c : Ref .context) : Moment → Option QueueMoment
  | .queue c' m => if c' = c then some m else none
  | _ => none

namespace World

/-- What happened to the queue of a context, in order. -/
def queueHistory (w : World) (c : Ref .context) : List QueueMoment := w.moments (Moment.ofQueue? c)

theorem queueHistory_mark (w : World) (c : Ref .context) (m : Moment) :
    (w.mark m).queueHistory c = w.queueHistory c ++ (m.ofQueue? c).toList :=
  w.moments_mark _ m

/-- Taking the first task makes it start. -/
theorem queue_dequeue {w w₁ : World} {c : Ref .context} {t : Task}
    (h : w.dequeue c = (some t, w₁)) :
    w.waitingTasks c = t :: w₁.waitingTasks c ∧
      w₁.queueHistory c = w.queueHistory c ++ [.started t] ∧ w₁.isRunning c = w.isRunning c := by
  obtain ⟨x, rest, hx, hq, rfl⟩ := dequeue_some h
  refine ⟨?_, ?_, w.isRunning_changeContext c c fun _ => rfl⟩
  · have hx' : (w.changeContext c fun x => { x with queue := rest }).context? c =
        some { x with queue := rest } := by
      rw [context?_changeContext, if_pos rfl, hx]
      rfl
    rw [waitingTasks_eq hx, hq]
    exact congrArg (t :: ·) (waitingTasks_eq hx').symm
  · rw [queueHistory_mark, Moment.ofQueue?, if_pos rfl]
    rfl

end World

/-! ### What a queue can go through -/

/-- A queue was asked to take a task or to drop those that wait. -/
def QueueMoment.isRequest : QueueMoment → Prop
  | .enqueued _ | .dropped _ => True
  | _ => False

/-- **What moments make of a queue.** A task enters at the end and starts from the front; dropping
leaves nothing. -/
inductive Replay : List Task → List QueueMoment → List Task → Prop where
  | nil (q : List Task) : Replay q [] q
  | enqueued {q ms q'} (t : Task) : Replay (q ++ [t]) ms q' → Replay q (.enqueued t :: ms) q'
  | started {q ms q'} (t : Task) : Replay q ms q' → Replay (t :: q) (.started t :: ms) q'
  | finished {q ms q'} (t : Task) (r : Except HostError Unit) : Replay q ms q' →
    Replay q (.finished t r :: ms) q'
  | dropped {ms q'} (q : List Task) : Replay [] ms q' → Replay q (.dropped q :: ms) q'

/-- The tasks that were enqueued, in order. -/
def enqueuedIn (ms : List QueueMoment) : List Task :=
  ms.filterMap fun | .enqueued t => some t | _ => none

/-- The tasks that were started, in order. -/
def startedIn (ms : List QueueMoment) : List Task :=
  ms.filterMap fun | .started t => some t | _ => none

/-- The tasks that were dropped. -/
def droppedIn (ms : List QueueMoment) : List Task :=
  ms.flatMap fun | .dropped ts => ts | _ => []

namespace Replay

variable {q q' q'' : List Task} {ms ms' : List QueueMoment}

theorem trans (h : Replay q ms q') (h' : Replay q' ms' q'') : Replay q (ms ++ ms') q'' := by
  induction h with
  | nil => exact h'
  | enqueued t _ ih => exact .enqueued t (ih h')
  | started t _ ih => exact .started t (ih h')
  | finished t r _ ih => exact .finished t r (ih h')
  | dropped q _ ih => exact .dropped q (ih h')

/-- **Tasks start in the order in which they were enqueued.** Those that have started, followed by
those that still wait, are a selection in order of those that waited at first and were enqueued. -/
theorem order (h : Replay q ms q') : (startedIn ms ++ q').Sublist (q ++ enqueuedIn ms) := by
  induction h with
  | nil q => simp [startedIn, enqueuedIn]
  | enqueued t _ ih => simpa [startedIn, enqueuedIn] using ih
  | started t _ ih => simpa [startedIn, enqueuedIn] using ih
  | finished t r _ ih => simpa [startedIn, enqueuedIn] using ih
  -- the dropped tasks are left out of the selection
  | @dropped ms _ q _ ih =>
    have hs : (enqueuedIn ms).Sublist (q ++ enqueuedIn ms) := List.sublist_append_right _ _
    simpa [startedIn, enqueuedIn] using ih.trans hs

/-- Each task that was enqueued started, was dropped, or still waits, and each once. -/
theorem accounts (h : Replay q ms q') :
    (startedIn ms ++ droppedIn ms ++ q').Perm (q ++ enqueuedIn ms) := by
  induction h with
  | nil q => simp [startedIn, droppedIn, enqueuedIn]
  | enqueued t _ ih => simpa [startedIn, droppedIn, enqueuedIn] using ih
  | started t _ ih => simpa [startedIn, droppedIn, enqueuedIn] using ih
  | finished t r _ ih => simpa [startedIn, droppedIn, enqueuedIn] using ih
  -- they are moved past the tasks that start later
  | @dropped ms q' q _ ih =>
    have hs : (startedIn ms ++ q).Perm (q ++ startedIn ms) := List.perm_append_comm
    have hq := hs.append_right (droppedIn ms ++ q')
    simp only [startedIn, droppedIn, enqueuedIn, List.filterMap_cons, List.flatMap_cons,
      List.append_assoc, List.nil_append] at ih hq ⊢
    exact hq.trans (ih.append_left q)

/-- Where nothing was dropped, all tasks start in the order in which they were enqueued. -/
theorem order_of_nothing_dropped (h : Replay q ms q') (hd : droppedIn ms = []) :
    startedIn ms ++ q' = q ++ enqueuedIn ms := by
  -- a selection in order of the same length is everything
  have hp := h.accounts
  rw [hd, List.append_nil] at hp
  exact h.order.eq_of_length hp.length_eq

end Replay

/-! ### Turns -/

/-- One turn of a queue: the task that ran, what the queue was asked meanwhile, and what came of
the task. -/
structure Turn where
  task : Task
  during : List QueueMoment
  result : Except HostError Unit

/-- The moments of a turn. -/
def Turn.moments (t : Turn) : List QueueMoment :=
  .started t.task :: t.during ++ [.finished t.task t.result]

/-- **A queue during a turn** that began with the given moments and tasks: it is still being
drained, and all that happened to it are requests. -/
structure DuringTurn (c : Ref .context) (past : List QueueMoment) (q : List Task) (w : World)
    (during : List QueueMoment) : Prop where
  history : w.queueHistory c = past ++ during
  requests : ∀ m ∈ during, m.isRequest
  replay : Replay q during (w.waitingTasks c)
  running : w.isRunning c = true

namespace DuringTurn

variable {c : Ref .context} {past during : List QueueMoment} {q : List Task} {w w' : World}

/-- What is not seen in the queue does not end the turn. -/
theorem of_same (h : DuringTurn c past q w during) (hh : w'.queueHistory c = w.queueHistory c)
    (hq : w'.waitingTasks c = w.waitingTasks c) (hr : w'.isRunning c = w.isRunning c) :
    DuringTurn c past q w' during :=
  ⟨by rw [hh, h.history], h.requests, by rw [hq]; exact h.replay, by rw [hr, h.running]⟩

/-- A request is added to those of the turn. -/
theorem request (h : DuringTurn c past q w during) {m : QueueMoment} (hm : m.isRequest)
    (hh : w'.queueHistory c = w.queueHistory c ++ [m])
    (hq : Replay (w.waitingTasks c) [m] (w'.waitingTasks c)) (hr : w'.isRunning c = true) :
    DuringTurn c past q w' (during ++ [m]) where
  history := by rw [hh, h.history, List.append_assoc]
  requests := by
    intro m' hm'
    rcases List.mem_append.mp hm' with h' | h'
    · exact h.requests m' h'
    · rwa [List.mem_singleton.mp h']
  replay := h.replay.trans hq
  running := hr

end DuringTurn

/-- The queue of `c` is in a turn that began with the given moments and tasks. -/
def InTurn (c : Ref .context) (start : List QueueMoment × List Task) (w : World) : Prop :=
  ∃ during, DuringTurn c start.1 start.2 w during

section

variable {c c' : Ref .context} {start : List QueueMoment × List Task} {w w' : World}

theorem InTurn.of_same (h : InTurn c start w) (hh : w'.queueHistory c = w.queueHistory c)
    (hq : w'.waitingTasks c = w.waitingTasks c) (hr : w'.isRunning c = w.isRunning c) :
    InTurn c start w' :=
  h.imp fun _ h => h.of_same hh hq hr

/-- A moment that is not one of the queue. -/
theorem InTurn.mark {m : Moment} (hm : m.ofQueue? c = none) (h : InTurn c start w) :
    InTurn c start (w.mark m) :=
  h.of_same (by rw [World.queueHistory_mark, hm]; exact List.append_nil _) rfl rfl

/-- A moment of another queue. -/
theorem Moment.ofQueue?_of_ne (h : c' ≠ c) (m : QueueMoment) :
    Moment.ofQueue? c (.queue c' m) = none :=
  if_neg h

/-- A change of a context that leaves queue and flag alone. -/
theorem InTurn.changeContext {f : Context → Context} (hq : ∀ x, (f x).queue = x.queue)
    (hr : ∀ x, (f x).running = x.running) (h : InTurn c start w) :
    InTurn c start (w.changeContext c' f) :=
  h.of_same rfl (w.waitingTasks_changeContext c' c hq) (w.isRunning_changeContext c' c hr)

/-- A change of another context. -/
theorem InTurn.changeOther {f : Context → Context} (hc : c' ≠ c) (h : InTurn c start w) :
    InTurn c start (w.changeContext c' f) := by
  have hx := w.context?_changeContext_of_ne hc f
  refine h.of_same rfl ?_ ?_
  · rw [World.waitingTasks, World.waitingTasks, hx]
  · rw [World.isRunning, World.isRunning, hx]

theorem InTurn.enqueue (t : Task) (h : InTurn c start w) : InTurn c start (w.enqueue c' t) := by
  -- for this queue it is a request, for another one it is not seen
  by_cases hc : c' = c
  · subst hc
    obtain ⟨during, h⟩ := h
    obtain ⟨x, hx, _⟩ := World.exists_of_isRunning h.running
    refine ⟨during ++ [.enqueued t], h.request (m := .enqueued t) trivial ?_ ?_ ?_⟩
    · rw [World.enqueue, World.queueHistory_mark, Moment.ofQueue?, if_pos rfl]
      rfl
    · rw [World.waitingTasks_enqueue hx]
      exact .enqueued t (.nil _)
    · rw [World.isRunning_enqueue, h.running]
  · exact InTurn.mark (Moment.ofQueue?_of_ne hc _) (h.changeOther hc)

theorem InTurn.clearQueue (h : InTurn c start w) : InTurn c start (w.clearQueue c') := by
  by_cases hc : c' = c
  · subst hc
    obtain ⟨during, h⟩ := h
    refine ⟨_, h.request (m := .dropped (w.waitingTasks c')) trivial ?_ ?_ ?_⟩
    · rw [World.clearQueue, World.queueHistory_mark, Moment.ofQueue?, if_pos rfl]
      rfl
    · rw [World.waitingTasks_clearQueue]
      exact .dropped _ (.nil _)
    · rw [World.isRunning_clearQueue, h.running]
  · exact InTurn.mark (Moment.ofQueue?_of_ne hc _) (h.changeOther hc)

end

/-- **Nothing but requests happens to a queue while one of its tasks runs.** -/
theorem turn_lawful (c : Ref .context) : Lawful (.plain (InTurn c) (fun _ => True) (· ≠ c)) := by
  have shared : ∀ {start w w'}, World.SameShared w w' → InTurn c start w → InTurn c start w' :=
    fun hs h => h.of_same
      (by
        rw [World.queueHistory, World.moments, hs.history]
        rfl)
      (by rw [World.waitingTasks, World.waitingTasks, hs.context?]) (hs.isRunning c)
  refine Steady.lawful_of_steps ?_ (.of_shared shared (fun _ => InTurn.mark rfl) fun _ => trivial)
    (fun _ _ h => InTurn.mark rfl (h.of_same rfl rfl rfl))
    (fun _ _ _ h => InTurn.mark rfl (h.of_same rfl rfl rfl)) fun _ _ => InTurn.mark rfl
  exact
    { lost := fun _ => trivial
      aside := fun hs => shared hs.toSameShared
      call := fun _ => InTurn.mark rfl
      gathering := fun _ _ => InTurn.mark rfl
      addContainer := fun _ h => h.of_same rfl rfl rfl
      number := fun _ h => h.of_same rfl rfl rfl
      openGathering := fun _ _ _ _ h => InTurn.mark rfl (h.of_same rfl rfl rfl)
      arrive := fun _ _ _ h => InTurn.mark rfl (h.of_same rfl rfl rfl)
      enqueue := fun _ t h => h.enqueue t
      idle := fun hw hi hc => by
        -- this queue is being drained, so it is not idle
        obtain ⟨_, h⟩ := hw
        rw [hc, h.running] at hi
        exact Bool.noConfusion hi
      begin := fun hc h => (h.changeOther hc).changeOther hc
      finish := fun hc h => (h.changeOther hc).changeOther hc
      dequeue := fun hc hx h => by
        obtain ⟨x, rest, _, _, rfl⟩ := World.dequeue_some hx
        exact InTurn.mark (Moment.ofQueue?_of_ne hc _) (h.changeOther hc)
      finished := fun _ _ hc h => InTurn.mark (Moment.ofQueue?_of_ne hc _) h
      clearQueue := fun _ h => h.clearQueue
      dropContext := fun c' h =>
        (InTurn.changeContext (fun _ => rfl) (fun _ => rfl) h : InTurn c _ (World.letGo _ c')).of_same
          rfl rfl rfl }

/-! ### Draining -/

/-- **A drain is these turns.** They are all that happens to the queue, and leave nothing in it. -/
structure Drained (c : Ref .context) (w w' : World) (turns : List Turn) : Prop where
  history : w'.queueHistory c = w.queueHistory c ++ turns.flatMap Turn.moments
  requests : ∀ turn ∈ turns, ∀ m ∈ turn.during, m.isRequest
  replay : Replay (w.waitingTasks c) (turns.flatMap Turn.moments) []
  empty : w'.waitingTasks c = []

/-- The turn of a task that runs in a queue that is being drained. -/
theorem Machine.runTask_turn {n : Nat} {c : Ref .context} {t : Task} {w w' : World}
    {r : Except HostError Unit} (hr : w.isRunning c = true)
    (ht : (ofFuel n).runTask t w = Run.ofExcept r w') :
    ∃ during, DuringTurn c (w.queueHistory c) (w.waitingTasks c) w' during := by
  have L := turn_lawful c
  -- when the task begins, nothing has been asked of the queue yet
  have hw : InTurn c (w.queueHistory c, w.waitingTasks c) w :=
    ⟨[], (List.append_nil _).symm, nofun, .nil _, hr⟩
  have hk := @Lawful.runTask _ _ L (w.queueHistory c, w.waitingTasks c) [] _ (ofFuel_keeps L n) t
  exact hk.of_eq hw ht

/-- A first turn, and those of the rest of the drain. -/
theorem Drained.cons {c : Ref .context} {w w₁ w₂ w' : World} {t : Task} {during : List QueueMoment}
    {first : Except HostError Unit} {turns : List Turn} (hd : w.dequeue c = (some t, w₁))
    (h : DuringTurn c (w₁.queueHistory c) (w₁.waitingTasks c) w₂ during)
    (hs : Drained c (w₂.mark (.queue c (.finished t first))) w' turns) :
    Drained c w w' (⟨t, during, first⟩ :: turns) := by
  obtain ⟨hq, hh, _⟩ := World.queue_dequeue hd
  refine ⟨?_, ?_, ?_, hs.empty⟩
  · rw [hs.history, World.queueHistory_mark, h.history, hh, Moment.ofQueue?, if_pos rfl]
    simp [Turn.moments]
  · intro turn hturn
    rcases List.mem_cons.mp hturn with rfl | hturn
    · exact h.requests
    · exact hs.requests turn hturn
  · have hreplay := h.replay.trans (.finished t first hs.replay)
    rw [hq]
    simpa [Turn.moments] using Replay.started t hreplay

/-- **A drain is a sequence of turns** until no task waits, and fails with their first error. -/
theorem Machine.drain_turns (n : Nat) (c : Ref .context) (w : World) (hr : w.isRunning c = true)
    (he : ((ofFuel n).drain c w).1 ≠ .exhausted) :
    ∃ w' turns, Drained c w w' turns ∧ w'.isRunning c = true ∧
      (ofFuel n).drain c w = Run.ofExcept (firstOf (turns.map Turn.result)) w' := by
  induction n generalizing w with
  | zero => exact absurd rfl he
  | succ n ih =>
    rw [ofFuel_drain_succ] at he ⊢
    rcases hd : w.dequeue c with ⟨_ | t, w₁⟩
    · obtain ⟨hq, rfl⟩ := World.dequeue_none hd
      refine ⟨w₁, [], ⟨by simp, by simp, ?_, hq⟩, hr, ?_⟩
      · rw [hq]
        exact .nil []
      · rw [Run.drainBy_none hd]
        rfl
    -- the task has ended, since the whole drain has
    · have hne : ((ofFuel n).runTask t w₁).1 ≠ .exhausted := by
        intro h
        refine he ?_
        rw [Run.drainBy_exhausted hd (Prod.ext h rfl)]
      obtain ⟨first, w₂, ht⟩ := Run.exists_eq_ofExcept hne
      obtain ⟨during, h⟩ := runTask_turn ((World.queue_dequeue hd).2.2.trans hr) ht
      rw [Run.drainBy_some hd ht] at he ⊢
      -- so has the rest of the drain, to which the induction applies
      have hne' : ((ofFuel n).drain c (w₂.mark (.queue c (.finished t first)))).1 ≠ .exhausted := by
        intro h
        refine he ?_
        rw [Run.bind_apply, Run.attempt_exhausted (Prod.ext h rfl)]
      obtain ⟨w', turns, hs, hr', heq⟩ := ih (w₂.mark _) h.running hne'
      refine ⟨w', _, .cons hd h hs, hr', ?_⟩
      rw [Run.bind_of_done (Run.attempt_of_eq heq), firstError_firstOf, List.map_cons]

end ScriptModules
