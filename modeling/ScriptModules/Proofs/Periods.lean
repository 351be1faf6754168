import ScriptModules.Module.Environment
import ScriptModules.Proofs.Heaps
import ScriptModules.Proofs.QueueOrder

/-!
# Periods of environments

An environment that is entered gets a context of its own (`World.entered`), and when it is left and
given up the period on this context is over (`World.closed`): the environment is active nowhere, no
task waits on the context, and its heap tracks no scope, those that it tracked being empty.

What tasks do meanwhile does not reach the environment or the heap of the context
(`World.SameAnchors`), so the release at the end is the last one.
-/

namespace ScriptModules

/-! ### What tasks leave alone -/

namespace World

/-- The heap of a context that exists. -/
def heapAt? (w : World) (c : Ref .context) : Option (Ref .heap) := (w.context? c).map (·.heap)

/-- Environments are as they were, and contexts have the heaps that they had. -/
structure SameAnchors (w w' : World) : Prop where
  environments : w'.environments = w.environments
  heaps : ∀ c, w'.heapAt? c = w.heapAt? c

variable {w w₁ w₂ : World}

theorem SameAnchors.trans (h : SameAnchors w w₁) (h' : SameAnchors w₁ w₂) : SameAnchors w w₂ :=
  ⟨h'.environments.trans h.environments, fun c => (h'.heaps c).trans (h.heaps c)⟩

theorem SameAnchors.of_same (he : w₁.environments = w.environments)
    (hc : w₁.contexts = w.contexts) : SameAnchors w w₁ := by
  refine ⟨he, fun c => ?_⟩
  rw [heapAt?, heapAt?, context?, context?, hc]

/-- A change of a context that leaves its heap alone. -/
theorem SameAnchors.changeContext (w : World) (c : Ref .context) {f : Context → Context}
    (hf : ∀ x, (f x).heap = x.heap) : SameAnchors w (w.changeContext c f) := by
  refine ⟨rfl, fun c' => ?_⟩
  rw [heapAt?, heapAt?, context?_changeContext]
  split
  · rw [Option.map_map]
    exact congrArg (Option.map · (w.context? c')) (funext hf)
  · rfl

theorem SameAnchors.letGo (w : World) (c : Ref .context) : SameAnchors w (w.letGo c) :=
  .changeContext w c fun _ => rfl

theorem SameAnchors.clearQueue (w : World) (c : Ref .context) : SameAnchors w (w.clearQueue c) :=
  (SameAnchors.changeContext w c fun _ => rfl :
    SameAnchors w (w.changeContext c fun x => { x with queue := [] })).trans (.of_same rfl rfl)

end World

/-- **No task reaches the environment or the heap of a context.** -/
theorem anchors_lawful : Lawful (.plain World.SameAnchors (fun _ => True) fun _ => True) := by
  have shared : ∀ {w₀ w w' : World}, World.SameShared w w' → World.SameAnchors w₀ w →
      World.SameAnchors w₀ w' := fun hs h => h.trans (.of_same hs.environments hs.contexts)
  refine Steady.lawful_of_steps ?_ (.of_shared shared (fun _ h => h.trans (.of_same rfl rfl)) fun _ => trivial)
    (fun _ _ h => h.trans (.of_same rfl rfl))
    (fun _ _ _ h => h.trans (.of_same rfl rfl)) fun _ _ h => h.trans (.of_same rfl rfl)
  have change : ∀ {w₀ w : World} (c : Ref .context) {f : Context → Context},
      (∀ x, (f x).heap = x.heap) → World.SameAnchors w₀ w →
      World.SameAnchors w₀ (w.changeContext c f) :=
    fun c _ hf h => h.trans (.changeContext _ c hf)
  exact
    -- only queues change in contexts, and never the heaps that these are on
    { lost := fun _ => trivial
      aside := fun hs => shared hs.toSameShared
      call := fun _ h => h.trans (.of_same rfl rfl)
      gathering := fun _ _ h => h.trans (.of_same rfl rfl)
      addContainer := fun _ h => h.trans (.of_same rfl rfl)
      number := fun _ h => h.trans (.of_same rfl rfl)
      openGathering := fun _ _ _ _ h => h.trans (.of_same rfl rfl)
      arrive := fun _ _ _ h => h.trans (.of_same rfl rfl)
      enqueue := fun c t h => by
        have hchange : World.SameAnchors _
            (World.changeContext _ c fun x => { x with queue := x.queue ++ [t] }) :=
          change c (fun _ => rfl) h
        exact hchange.trans (.of_same rfl rfl)
      idle := fun _ _ => trivial
      begin := fun {_ _ c} _ h => change c (fun _ => rfl) (change c (fun _ => rfl) h)
      finish := fun {_ _ c} _ h => change c (fun _ => rfl) (change c (fun _ => rfl) h)
      dequeue := fun {_ _ _ c _} _ hx h => by
        obtain ⟨x, rest, _, _, rfl⟩ := World.dequeue_some hx
        have hchange : World.SameAnchors _ (World.changeContext _ c fun x => { x with queue := rest }) :=
          change c (fun _ => rfl) h
        exact hchange.trans (.of_same rfl rfl)
      finished := fun _ _ _ h => h.trans (.of_same rfl rfl)
      clearQueue := fun c h => h.trans (.clearQueue _ c)
      dropContext := fun c h => (h.trans (.letGo _ c)).trans (.of_same rfl rfl) }

/-! ### Opening and closing an environment -/

namespace World

/-- The world in which a new environment is active on a new context, both held by a guard. -/
def entered (w : World) (x : Environment) : World :=
  (({ w.addHeap with
      environments := w.environments.add x
      contexts := w.contexts.add { heap := w.heaps.fresh, holders := 0 } }.setActivity
    w.environments.fresh (some ⟨w.contexts.fresh, 1⟩)).keep w.environments.fresh).hold
      w.contexts.fresh

/-- The world in which a guard of the environment is gone, and whoever made the environment has given
it up. -/
def parted (w : World) (e : Ref .environment) (c : Ref .context) : World :=
  ((w.abandon e).letGo c).abandon e

/-- The world in which an environment that was entered once is left and given up. -/
def closed (w : World) (e : Ref .environment) (c : Ref .context) : World :=
  ((w.setActivity e none).endPeriod c).parted e c

end World

section

variable {w : World}

/-- Opening an environment and entering it. -/
theorem Run.enter_eq {x : Environment} (hx : x.active = none) (w : World) :
    (do Guard.enter (← Run.newEnvironment x) : Hosted Guard) w =
      (.done ⟨w.environments.fresh, w.contexts.fresh⟩, w.entered x) := by
  have hnew : (Run.newEnvironment x : Hosted _) w =
      (.done w.environments.fresh, { w with environments := w.environments.add x }) := rfl
  have hidle : ({ w with environments := w.environments.add x } : World).activity?
      w.environments.fresh = none := by
    rw [World.activity?, World.environment?, Table.get?_add_fresh]
    exact hx
  -- nothing is active there, so a new context is made
  have hacquire : ∃ w₁, (Environment.acquire w.environments.fresh : Hosted _)
      { w with environments := w.environments.add x } = (.done w.contexts.fresh, w₁) ∧
      (w₁.keep w.environments.fresh).hold w.contexts.fresh = w.entered x := by
    refine ⟨_, ?_, rfl⟩
    unfold Environment.acquire
    rw [Run.bind_of_done (Run.read_apply _ _), hidle]
    rfl
  obtain ⟨w₁, hacquire, hentered⟩ := hacquire
  rw [Run.bind_of_done hnew, Guard.enter, Run.bind_of_done hacquire, ← hentered]
  rfl

/-- Leaving an environment that was entered once, and giving it up. -/
theorem Run.leave_eq {e : Ref .environment} {c : Ref .context}
    (h : w.activity? e = some ⟨c, 1⟩) :
    (do Guard.leave ⟨e, c⟩; Run.change (·.abandon e) : Hosted Unit) w =
      (.done (), w.closed e c) := by
  have hrelease : Environment.release e w = (.done (), (w.setActivity e none).endPeriod c) := by
    unfold Environment.release
    rw [Run.bind_of_done (Run.read_apply _ _), h]
    rfl
  have hleave : (Guard.leave ⟨e, c⟩ : Hosted Unit) w =
      (.done (), (((w.setActivity e none).endPeriod c).abandon e).letGo c) := by
    unfold Guard.leave
    rw [Run.bind_of_done (Run.attempt_of_eq (r := .ok ()) hrelease)]
    rfl
  rw [Run.bind_of_done hleave]
  rfl

end

/-! ### What is there when an environment was entered -/

namespace World

variable (w : World) (x : Environment)

theorem activity_entered : (w.entered x).activity? w.environments.fresh = some ⟨w.contexts.fresh, 1⟩ := by
  have henv : (w.entered x).environment? w.environments.fresh =
      some { x with active := some ⟨w.contexts.fresh, 1⟩, holders := x.holders + 1 } := by
    show ((((w.environments.add x).update _ _).update _ _)).get? _ = _
    rw [Table.get?_update, if_pos rfl, Table.get?_update, if_pos rfl, Table.get?_add_fresh]
    rfl
  rw [activity?, henv]
  rfl

theorem context_entered : (w.entered x).context? w.contexts.fresh =
    some { heap := w.heaps.fresh, holders := 1 } := by
  show ((w.contexts.add _).update _ _).get? _ = _
  rw [Table.get?_update, if_pos rfl, Table.get?_add_fresh]
  rfl

end World

/-! ### What is left when an environment was closed -/

namespace World

/-- The end of a period is seen in the queue and in the heap. -/
theorem endPeriod_aside (w : World) (c : Ref .context) : SameShared (w.clearQueue c) (w.endPeriod c) :=
  release_shared _ _

section

variable (w : World) (e : Ref .environment) (c : Ref .context)

theorem history_parted : (w.parted e c).history = w.history := rfl

theorem containers_parted : (w.parted e c).containers = w.containers := rfl

theorem heaps_parted : (w.parted e c).heaps = w.heaps := rfl

theorem scopes_parted : (w.parted e c).scopes = w.scopes := rfl

theorem environment_parted : (w.parted e c).environment? e =
    (w.environment? e).map fun x => { x with holders := x.holders - 1 - 1 } := by
  show ((w.environments.update e _).update e _).get? e = _
  rw [Table.get?_update, if_pos rfl, Table.get?_update, if_pos rfl, Option.map_map]
  rfl

theorem waitingTasks_parted : (w.parted e c).waitingTasks c = w.waitingTasks c :=
  (w.abandon e).waitingTasks_letGo c c

theorem heapAt_parted : (w.parted e c).heapAt? c = w.heapAt? c :=
  (SameAnchors.letGo (w.abandon e) c).heaps c

theorem activity_closed : (w.closed e c).activity? e = none := by
  have henv : ((w.setActivity e none).endPeriod c).environment? e =
      (w.environment? e).map fun x => { x with active := none } := by
    rw [environment?, (endPeriod_aside _ c).environments]
    show (w.environments.update e _).get? e = _
    rw [Table.get?_update, if_pos rfl]
    rfl
  rw [closed, activity?, environment_parted, henv]
  cases w.environment? e <;> rfl

theorem waitingTasks_closed : (w.closed e c).waitingTasks c = [] := by
  rw [closed, waitingTasks_parted, waitingTasks, (endPeriod_aside _ c).context?]
  exact waitingTasks_clearQueue _ c

theorem queueHistory_closed :
    (w.closed e c).queueHistory c = w.queueHistory c ++ [.dropped (w.waitingTasks c)] := by
  have hsame : (w.closed e c).queueHistory c = ((w.setActivity e none).clearQueue c).queueHistory c := by
    rw [closed, queueHistory, moments, history_parted, (endPeriod_aside _ c).history]
    rfl
  rw [hsame, clearQueue, queueHistory_mark, Moment.ofQueue?, if_pos rfl]
  rfl

theorem result_closed (a : Ref .container) : (w.closed e c).result? a = w.result? a := by
  rw [closed, result?, container, containers_parted, (endPeriod_aside _ c).containers]
  rfl

theorem heapAt_closed : (w.closed e c).heapAt? c = w.heapAt? c := by
  rw [closed, heapAt_parted, heapAt?, (endPeriod_aside _ c).context?]
  exact (SameAnchors.clearQueue (w.setActivity e none) c).heaps c

/-- The heap of the context is released. -/
theorem heap_closed {h : Ref .heap} (hh : w.heapAt? c = some h) :
    (w.closed e c).tracked h = [] ∧ ∀ s ∈ w.tracked h,
      (w.closed e c).scopes.get? s = (w.scopes.get? s).map Scope.emptied := by
  have hperiod : (w.setActivity e none).endPeriod c =
      ((w.setActivity e none).clearQueue c).release h := by
    obtain ⟨x, hx, rfl⟩ := Option.map_eq_some_iff.1 hh
    have hheap : (w.setActivity e none).contextHeap c = x.heap := by
      have hx' : (w.setActivity e none).context? c = some x := hx
      rw [contextHeap, hx']
    rw [endPeriod, hheap]
  rw [closed, hperiod, tracked, heaps_parted, scopes_parted]
  exact released ((w.setActivity e none).clearQueue c) h

end

end World

end ScriptModules
