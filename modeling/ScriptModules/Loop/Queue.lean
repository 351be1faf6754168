import ScriptModules.World.Run

/-!
# Task queues

An execution context has a queue of tasks that run one after the other. Scheduling onto an idle
queue drains it at once; scheduling while it is being drained only puts the task at its end. A
task that fails does not stop the others, and the drain fails with the first error.

A context is alive while someone holds it, or while an environment that someone holds is active on
it. A handle does not hold it.
-/

namespace ScriptModules

/-- Whether an environment is held and active on the context. -/
def Environment.keeps (e : Environment) (c : Ref .context) : Bool :=
  0 < e.holders && (match e.active with | some a => a.context == c | none => false)

namespace World

/-- A context. -/
def context? (w : World) (c : Ref .context) : Option Context := w.contexts.get? c

/-- **Whether a context is alive.** -/
def isAlive (w : World) (c : Ref .context) : Bool :=
  match w.context? c with
  | none => false
  | some x => 0 < x.holders || w.environments.rows.any fun e => e.keeps c

/-- The world with a context changed. -/
def changeContext (w : World) (c : Ref .context) (f : Context → Context) : World :=
  { w with contexts := w.contexts.update c f }

/-- The world with one more holder of a context. -/
def hold (w : World) (c : Ref .context) : World :=
  w.changeContext c fun x => { x with holders := x.holders + 1 }

/-- The world with one holder of a context less. -/
def letGo (w : World) (c : Ref .context) : World :=
  w.changeContext c fun x => { x with holders := x.holders - 1 }

/-- Whether a context's queue is being drained. -/
def isRunning (w : World) (c : Ref .context) : Bool :=
  match w.context? c with
  | some x => x.running
  | none => false

/-- The tasks that wait on a context, in order. -/
def waitingTasks (w : World) (c : Ref .context) : List Task :=
  match w.context? c with
  | some x => x.queue
  | none => []

/-- The number of tasks that wait on a context. -/
def pendingTasks (w : World) (c : Ref .context) : Nat := (w.waitingTasks c).length

/-- The world with a task at the end of a context's queue. -/
def enqueue (w : World) (c : Ref .context) (t : Task) : World :=
  (w.changeContext c fun x => { x with queue := x.queue ++ [t] }).mark (.queue c (.enqueued t))

/-- The first task of a context's queue, and the world without it. -/
def dequeue (w : World) (c : Ref .context) : Option Task × World :=
  match w.context? c with
  | none => (none, w)
  | some x =>
    match x.queue with
    | [] => (none, w)
    | t :: rest =>
      (some t, (w.changeContext c fun x => { x with queue := rest }).mark (.queue c (.started t)))

/-- Nothing is taken from an empty queue. -/
theorem dequeue_none {w w' : World} {c : Ref .context} (h : w.dequeue c = (none, w')) :
    w.waitingTasks c = [] ∧ w' = w := by
  unfold dequeue at h
  unfold waitingTasks
  rcases hc : w.context? c with _ | x
  · rw [hc] at h
    exact ⟨rfl, (Prod.mk.inj h).2.symm⟩
  · rw [hc] at h
    cases hq : x.queue with
    | nil =>
      simp only [hq] at h
      exact ⟨hq, (Prod.mk.inj h).2.symm⟩
    | cons t rest =>
      simp only [hq] at h
      exact absurd (Prod.mk.inj h).1 nofun

theorem dequeue_some {w w' : World} {c : Ref .context} {t : Task}
    (h : w.dequeue c = (some t, w')) :
    ∃ x rest, w.context? c = some x ∧ x.queue = t :: rest ∧
      w' = (w.changeContext c fun x => { x with queue := rest }).mark (.queue c (.started t)) := by
  unfold dequeue at h
  rcases hc : w.context? c with _ | x
  · rw [hc] at h
    exact absurd (Prod.mk.inj h).1 nofun
  · rw [hc] at h
    cases hq : x.queue with
    | nil =>
      simp only [hq] at h
      exact absurd (Prod.mk.inj h).1 nofun
    | cons t' rest =>
      simp only [hq] at h
      obtain ⟨ht, rfl⟩ := Prod.mk.inj h
      cases ht
      exact ⟨x, rest, rfl, hq, rfl⟩

/-- The world with a context's queue emptied. -/
def clearQueue (w : World) (c : Ref .context) : World :=
  (w.changeContext c fun x => { x with queue := [] }).mark (.queue c (.dropped (w.waitingTasks c)))

/-- The world with a context's queue marked as being drained or not. -/
def setRunning (w : World) (c : Ref .context) (b : Bool) : World :=
  w.changeContext c fun x => { x with running := b }

/-- The world in which a context's queue begins to be drained; the context is held meanwhile. -/
def beginDrain (w : World) (c : Ref .context) : World := (w.setRunning c true).hold c

/-- The world in which a context's queue is no longer being drained. -/
def endDrain (w : World) (c : Ref .context) : World := (w.setRunning c false).letGo c

/-! ### Reading queues after changes -/

section

variable (w : World) (c c' : Ref .context)

theorem context?_changeContext (f : Context → Context) :
    (w.changeContext c f).context? c' = if c = c' then (w.context? c').map f else w.context? c' :=
  Table.get?_update w.contexts c c' f

/-- A change of a context that leaves queue and flag alone is not seen in the queue. -/
theorem waitingTasks_changeContext {f : Context → Context} (hf : ∀ x, (f x).queue = x.queue) :
    (w.changeContext c f).waitingTasks c' = w.waitingTasks c' := by
  rw [waitingTasks, waitingTasks, context?_changeContext]
  by_cases h : c = c'
  · rw [if_pos h]
    cases w.context? c' with
    | none => rfl
    | some x => exact hf x
  · rw [if_neg h]

theorem isRunning_changeContext {f : Context → Context} (hf : ∀ x, (f x).running = x.running) :
    (w.changeContext c f).isRunning c' = w.isRunning c' := by
  rw [isRunning, isRunning, context?_changeContext]
  by_cases h : c = c'
  · rw [if_pos h]
    cases w.context? c' with
    | none => rfl
    | some x => exact hf x
  · rw [if_neg h]

/-- A change of a context that leaves its holders alone keeps alive what was. -/
theorem isAlive_changeContext {f : Context → Context} (hf : ∀ x, (f x).holders = x.holders) :
    (w.changeContext c f).isAlive c' = w.isAlive c' := by
  rw [isAlive, isAlive, context?_changeContext]
  by_cases h : c = c'
  · rw [if_pos h, h]
    cases w.context? c' with
    | none => rfl
    | some x =>
      show (decide (0 < (f x).holders) || _) = _
      rw [hf]
      rfl
  · rw [if_neg h]
    rfl

theorem context?_changeContext_of_ne {c c' : Ref .context} (h : c ≠ c') (f : Context → Context) :
    (w.changeContext c f).context? c' = w.context? c' := by
  rw [context?_changeContext, if_neg h]

@[simp] theorem waitingTasks_hold : (w.hold c).waitingTasks c' = w.waitingTasks c' :=
  w.waitingTasks_changeContext c c' fun _ => rfl

@[simp] theorem waitingTasks_letGo : (w.letGo c).waitingTasks c' = w.waitingTasks c' :=
  w.waitingTasks_changeContext c c' fun _ => rfl

@[simp] theorem waitingTasks_setRunning (b : Bool) :
    (w.setRunning c b).waitingTasks c' = w.waitingTasks c' :=
  w.waitingTasks_changeContext c c' fun _ => rfl

@[simp] theorem isRunning_hold : (w.hold c).isRunning c' = w.isRunning c' :=
  w.isRunning_changeContext c c' fun _ => rfl

@[simp] theorem isRunning_letGo : (w.letGo c).isRunning c' = w.isRunning c' :=
  w.isRunning_changeContext c c' fun _ => rfl

theorem isRunning_setRunning {w : World} {c : Ref .context} {x : Context}
    (h : w.context? c = some x) (b : Bool) : (w.setRunning c b).isRunning c = b := by
  rw [setRunning, isRunning, context?_changeContext, if_pos rfl, h]
  rfl

theorem exists_of_isRunning {w : World} {c : Ref .context} (h : w.isRunning c = true) :
    ∃ x, w.context? c = some x ∧ x.running = true := by
  unfold isRunning at h
  cases hx : w.context? c with
  | none => simp [hx] at h
  | some x => exact ⟨x, rfl, by simpa [hx] using h⟩

theorem waitingTasks_eq {w : World} {c : Ref .context} {x : Context} (h : w.context? c = some x) :
    w.waitingTasks c = x.queue := by
  rw [waitingTasks, h]

theorem isRunning_of_some {w : World} {c : Ref .context} {x : Context}
    (h : w.context? c = some x) : w.isRunning c = x.running := by
  rw [isRunning, h]

theorem context?_enqueue {w : World} {c : Ref .context} {x : Context} (h : w.context? c = some x)
    (t : Task) : (w.enqueue c t).context? c = some { x with queue := x.queue ++ [t] } := by
  unfold enqueue
  exact (w.context?_changeContext c c _).trans (by rw [if_pos rfl, h]; rfl)

theorem waitingTasks_enqueue {w : World} {c : Ref .context} {x : Context}
    (h : w.context? c = some x) (t : Task) :
    (w.enqueue c t).waitingTasks c = w.waitingTasks c ++ [t] := by
  rw [waitingTasks_eq (context?_enqueue h t), waitingTasks_eq h]

theorem waitingTasks_clearQueue (w : World) (c : Ref .context) :
    (w.clearQueue c).waitingTasks c = [] := by
  have hx : (w.clearQueue c).context? c = (w.context? c).map fun x => { x with queue := [] } := by
    unfold clearQueue
    exact (w.context?_changeContext c c _).trans (by rw [if_pos rfl])
  rw [waitingTasks, hx]
  cases w.context? c <;> rfl

theorem isRunning_enqueue (t : Task) : (w.enqueue c t).isRunning c' = w.isRunning c' :=
  w.isRunning_changeContext c c' fun _ => rfl

theorem isAlive_enqueue (t : Task) : (w.enqueue c t).isAlive c' = w.isAlive c' :=
  w.isAlive_changeContext c c' fun _ => rfl

theorem isRunning_clearQueue : (w.clearQueue c).isRunning c' = w.isRunning c' :=
  w.isRunning_changeContext c c' fun _ => rfl

end

end World

/-- The first of two results that is an error. -/
def firstError {ε : Type} (a b : Except ε Unit) : Except ε Unit :=
  match a with
  | .error e => .error e
  | .ok () => b

/-- The first error of results, if there is one. -/
def firstOf {ε : Type} : List (Except ε Unit) → Except ε Unit
  | [] => .ok ()
  | .error e :: _ => .error e
  | .ok () :: rest => firstOf rest

theorem firstError_firstOf {ε : Type} (r : Except ε Unit) (rest : List (Except ε Unit)) :
    firstError r (firstOf rest) = firstOf (r :: rest) := by
  cases r with
  | ok u => rfl
  | error e => rfl

namespace Run

/-- **Schedule a task.** While the queue is being drained the task waits for its turn. Otherwise
the queue is drained before this returns, and the context is held meanwhile. -/
def schedule (drain : Ref .context → Hosted Unit) (c : Ref .context) (t : Task) : Hosted Unit := do
  change (·.enqueue c t)
  if ← read (·.isRunning c) then return ()
  else
    change (·.beginDrain c)
    andAlways (drain c) (·.endDrain c)

/-- Schedule through a handle, which leads nowhere once the context is gone. -/
def scheduleByHandle (drain : Ref .context → Hosted Unit) (c : Ref .context) (t : Task) :
    Hosted Unit := do
  if ← read (·.isAlive c) then schedule drain c t
  else fail (.lifecycleMisuse (.contextInactive c.row))

/-- **Drain a queue:** take the first task, run it, and go on. The result is the first error in the
order of the runs. -/
def drainBy (runTask : Task → Hosted Unit) (drain : Ref .context → Hosted Unit)
    (c : Ref .context) : Hosted Unit := do
  match ← changeGet (·.dequeue c) with
  | none => return ()
  | some t =>
    let first ← attempt (runTask t)
    mark (.queue c (.finished t first))
    let rest ← attempt (drain c)
    ofExcept (firstError first rest)

section

variable {runTask : Task → Hosted Unit} {drain : Ref .context → Hosted Unit} {c : Ref .context}
  {w w₁ w₂ : World} {t : Task}

/-- Scheduling on a queue that is being drained runs nothing. -/
theorem schedule_running (h : w.isRunning c = true) :
    schedule drain c t w = (.done (), w.enqueue c t) := by
  have hr : (w.enqueue c t).isRunning c = true := by rw [World.isRunning_enqueue, h]
  unfold schedule
  rw [bind_of_done (change_apply _ _), bind_of_done (read_apply _ _), hr]
  rfl

/-- Scheduling on an idle queue drains it. -/
theorem schedule_idle (h : w.isRunning c = false) :
    schedule drain c t w =
      andAlways (drain c) (·.endDrain c) ((w.enqueue c t).beginDrain c) := by
  have hr : (w.enqueue c t).isRunning c = false := by rw [World.isRunning_enqueue, h]
  unfold schedule
  rw [bind_of_done (change_apply _ _), bind_of_done (read_apply _ _), hr]
  rfl

/-- Draining an empty queue does nothing. -/
theorem drainBy_none (h : w.dequeue c = (none, w₁)) : drainBy runTask drain c w = (.done (), w₁) := by
  unfold drainBy
  rw [bind_of_done (changeGet_of_eq h)]
  rfl

/-- Draining a queue runs its first task, and goes on. -/
theorem drainBy_first (h : w.dequeue c = (some t, w₁)) :
    drainBy runTask drain c w = (do
      let first ← attempt (runTask t)
      mark (.queue c (.finished t first))
      let rest ← attempt (drain c)
      ofExcept (firstError first rest) : Hosted Unit) w₁ := by
  unfold drainBy
  rw [bind_of_done (changeGet_of_eq h)]

/-- It goes on in the world in which the first task has ended. -/
theorem drainBy_some (h : w.dequeue c = (some t, w₁)) {first : Except HostError Unit}
    (ht : runTask t w₁ = ofExcept first w₂) :
    drainBy runTask drain c w =
      (do let rest ← attempt (drain c); ofExcept (firstError first rest) : Hosted Unit)
        (w₂.mark (.queue c (.finished t first))) := by
  rw [drainBy_first h]
  exact bind_of_done (attempt_of_eq ht)

theorem drainBy_exhausted (h : w.dequeue c = (some t, w₁)) (ht : runTask t w₁ = (.exhausted, w₂)) :
    drainBy runTask drain c w = (.exhausted, w₂) := by
  rw [drainBy_first h, bind_apply, attempt_exhausted ht]

end

end Run

end ScriptModules
