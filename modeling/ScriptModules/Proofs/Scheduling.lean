import ScriptModules.Proofs.HostRuns
import ScriptModules.Proofs.QueueOrder

/-!
# Scheduling

What a call of `schedule` comes to, wherever it is made. On a queue that is being drained, which is
so inside every task of the queue, it puts the task at the end and returns. On an idle queue it
returns when no task waits any more, and the tasks have run one after the other in the order in
which they were enqueued, whatever they themselves scheduled, and whether they failed or not
(`Machine.schedule_in_order`). That it returns is known of the host's own code, whose size bounds
the fuel that is needed; a script need not end.
-/

namespace ScriptModules

/-- The tasks that were enqueued while others ran, in order. -/
def requestedIn (turns : List Turn) : List Task := turns.flatMap fun t => enqueuedIn t.during

/-- The tasks that were dropped before they could run. -/
def discardedIn (turns : List Turn) : List Task := turns.flatMap fun t => droppedIn t.during

theorem startedIn_of_requests {ms : List QueueMoment} (h : ∀ m ∈ ms, m.isRequest) :
    startedIn ms = [] := by
  unfold startedIn
  refine List.filterMap_eq_nil_iff.mpr fun m hm => ?_
  have := h m hm
  cases m <;> first | rfl | exact this.elim

theorem enqueuedIn_turns (turns : List Turn) :
    enqueuedIn (turns.flatMap Turn.moments) = requestedIn turns := by
  induction turns with
  | nil => rfl
  | cons t rest ih =>
    simp only [enqueuedIn, requestedIn, List.flatMap_cons, List.filterMap_append] at ih ⊢
    rw [ih]
    simp [Turn.moments]

theorem droppedIn_turns (turns : List Turn) :
    droppedIn (turns.flatMap Turn.moments) = discardedIn turns := by
  induction turns with
  | nil => rfl
  | cons t rest ih =>
    simp only [droppedIn, discardedIn, List.flatMap_cons, List.flatMap_append] at ih ⊢
    rw [ih]
    simp [Turn.moments]

theorem startedIn_turns {turns : List Turn} (h : ∀ turn ∈ turns, ∀ m ∈ turn.during, m.isRequest) :
    startedIn (turns.flatMap Turn.moments) = turns.map Turn.task := by
  induction turns with
  | nil => rfl
  | cons t rest ih =>
    have hs := startedIn_of_requests (h t List.mem_cons_self)
    have hr := ih fun turn hm => h turn (List.mem_cons_of_mem t hm)
    simp only [startedIn, List.flatMap_cons, List.filterMap_append, List.map_cons] at hs hr ⊢
    rw [hr]
    simp [Turn.moments, hs]

/-- **The queue of `c` ran in order,** from the world in which a task was scheduled on it while it
was idle to the world in which `schedule` returned. -/
structure RanInOrder (c : Ref .context) (t : Task) (w w' : World) (turns : List Turn) : Prop where
  /-- All that happened to the queue: the task was enqueued, and then there were only turns. -/
  history : w'.queueHistory c = w.queueHistory c ++ .enqueued t :: turns.flatMap Turn.moments
  /-- Inside a turn no task starts; the queue is only asked to take tasks or to drop them. -/
  requests : ∀ turn ∈ turns, ∀ m ∈ turn.during, m.isRequest
  /-- Each task that starts is the first of those that wait then. -/
  replay : Replay (w.waitingTasks c ++ [t]) (turns.flatMap Turn.moments) []
  /-- The tasks ran in the order in which they were enqueued. -/
  order : (turns.map Turn.task).Sublist (w.waitingTasks c ++ t :: requestedIn turns)
  /-- Each ran once, unless it was dropped. -/
  accounts : (turns.map Turn.task ++ discardedIn turns).Perm (w.waitingTasks c ++ t :: requestedIn turns)
  /-- If none was dropped, all ran. -/
  all : discardedIn turns = [] → turns.map Turn.task = w.waitingTasks c ++ t :: requestedIn turns
  empty : w'.waitingTasks c = []
  idle : w'.isRunning c = false

/-- Between `beginDrain` and `endDrain` there are the turns of the drain. -/
theorem Drained.ranInOrder {c : Ref .context} {t : Task} {w w' : World} {x : Context}
    {turns : List Turn} (hx : w.context? c = some x)
    (hd : Drained c ((w.enqueue c t).beginDrain c) w' turns) (hr : w'.isRunning c = true) :
    RanInOrder c t w (w'.endDrain c) turns := by
  have hq : ((w.enqueue c t).beginDrain c).waitingTasks c = w.waitingTasks c ++ [t] := by
    rw [World.beginDrain, World.waitingTasks_hold, World.waitingTasks_setRunning,
      World.waitingTasks_enqueue hx]
  have hh : ((w.enqueue c t).beginDrain c).queueHistory c = w.queueHistory c ++ [.enqueued t] := by
    show (w.enqueue c t).queueHistory c = _
    rw [World.enqueue, World.queueHistory_mark, Moment.ofQueue?, if_pos rfl]
    rfl
  -- what is known of the moments, in terms of the turns
  have hreplay := hd.replay
  rw [hq] at hreplay
  have hs := startedIn_turns hd.requests
  have he := enqueuedIn_turns turns
  have hdrop := droppedIn_turns turns
  refine ⟨?_, hd.requests, hreplay, ?_, ?_, ?_, ?_, ?_⟩
  · show w'.queueHistory c = _
    rw [hd.history, hh, List.append_assoc, List.singleton_append]
  · have := hreplay.order
    simpa [hs, he] using this
  · have := hreplay.accounts
    simpa [hs, he, hdrop] using this
  · intro hnone
    have := hreplay.order_of_nothing_dropped (hdrop.trans hnone)
    simpa [hs, he] using this
  · rw [World.endDrain, World.waitingTasks_letGo, World.waitingTasks_setRunning, hd.empty]
  · obtain ⟨y, hy, _⟩ := World.exists_of_isRunning hr
    rw [World.endDrain, World.isRunning_letGo, World.isRunning_setRunning hy]

/-- A world in which the host holds a context, and nothing else has been made. -/
def World.hosting : World := ((Run.holdNewContext : Hosted _) World.empty).2

/-- A task of the host that schedules two others; one of them fails, the other schedules more. -/
def branchingTask : Task :=
  let leaf (name : String) (fails : Option HostError) : Routine := .mk (.text name) [] fails
  .routine (.mk (.text "root")
    [.schedule (leaf "left" (some .alreadyCompleted)),
      .schedule (.mk (.text "right") [.schedule (leaf "last" none), .clear, .pending] none)] none)

end ScriptModules
