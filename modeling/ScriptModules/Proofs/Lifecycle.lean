import ScriptModules.Proofs.Periods
import ScriptModules.Proofs.Sessions
import ScriptModules.Proofs.Use

/-!
# Acquiring and releasing

The life of one environment: how often its context was acquired and released, directly or by guards,
in whatever order, with anything else happening in between (`Environment.Lived`). The events of such
a life alone tell whether a context is active (`LifeEvent.Open`), and which acquisitions got the same
one.

`LifeStep.effect` says once what a single acquisition or release does to the world. From this the
invariants of a whole life follow by induction on it: `Lived.depth`, which ties the depth to the
events, and `Lived.current_iff`, which ties the active context to the acquisition that got it.
-/

namespace ScriptModules

/-! ### Lives of environments -/

/-- What the host sees of the life of an environment. -/
inductive LifeEvent where
  /-- The context was acquired, and is this one. -/
  | acquired (c : Ref .context)
  /-- The context was released. -/
  | released
  /-- A release failed. -/
  | refused
deriving DecidableEq

namespace LifeEvent

/-- How a release is seen. -/
def ofRelease : Except HostError Unit → LifeEvent
  | .ok () => released
  | .error _ => refused

def isAcquired : LifeEvent → Bool
  | acquired _ => true
  | _ => false

/-- The number of acquisitions. -/
def acquisitions (es : List LifeEvent) : Nat := es.countP isAcquired

/-- The number of releases that did not fail. -/
def releases (es : List LifeEvent) : Nat := es.count released

/-- There were more acquisitions than releases. -/
def Open (es : List LifeEvent) : Prop := releases es < acquisitions es

instance (es : List LifeEvent) : Decidable (Open es) :=
  inferInstanceAs (Decidable (releases es < acquisitions es))

section

variable (es : List LifeEvent)

@[simp] theorem acquisitions_acquired (c : Ref .context) :
    acquisitions (es ++ [acquired c]) = acquisitions es + 1 := by
  simp [acquisitions, isAcquired]

@[simp] theorem acquisitions_released : acquisitions (es ++ [released]) = acquisitions es := by
  simp [acquisitions, isAcquired]

@[simp] theorem acquisitions_refused : acquisitions (es ++ [refused]) = acquisitions es := by
  simp [acquisitions, isAcquired]

@[simp] theorem releases_acquired (c : Ref .context) :
    releases (es ++ [acquired c]) = releases es := by
  simp [releases]

@[simp] theorem releases_released : releases (es ++ [released]) = releases es + 1 := by
  simp [releases]

@[simp] theorem releases_refused : releases (es ++ [refused]) = releases es := by
  simp [releases]

end

end LifeEvent

/-- **A step in the life of an environment:** an acquisition or a release, by itself or with a guard. -/
inductive LifeStep (e : Ref .environment) (w : World) : LifeEvent → World → Prop
  | acquire {c : Ref .context} {w' : World} :
      (Environment.acquire e : Hosted (Ref .context)) w = (.done c, w') →
      LifeStep e w (.acquired c) w'
  | enter {g : Guard} {w' : World} : (Guard.enter e : Hosted Guard) w = (.done g, w') →
      LifeStep e w (.acquired g.context) w'
  | release {r : Except HostError Unit} {w' : World} :
      Environment.release e w = Run.ofExcept r w' → LifeStep e w (.ofRelease r) w'
  /-- What comes of the release in a guard that is dropped nobody is told. -/
  | leave {c : Ref .context} {r : Except HostError Unit} {w₁ w' : World} :
      Environment.release e w = Run.ofExcept r w₁ →
      (Guard.leave ⟨e, c⟩ : Hosted Unit) w = (.done (), w') → LifeStep e w (.ofRelease r) w'

/-- What exists goes on to exist: the environment, and all contexts. -/
structure World.Persists (e : Ref .environment) (w w' : World) : Prop where
  environment : (w.environment? e).isSome → (w'.environment? e).isSome
  contexts : ∀ c, (w.context? c).isSome → (w'.context? c).isSome

/-- Something else happens, which is no acquisition or release of the environment. -/
structure World.Elsewhere (e : Ref .environment) (w w' : World) : Prop extends
    World.Persists e w w' where
  activity : w'.activity? e = w.activity? e

/-- **The life of an environment** from a world on: the events and the world that it has come to. -/
inductive Environment.Lived (e : Ref .environment) (w₀ : World) : List LifeEvent → World → Prop
  | start : Lived e w₀ [] w₀
  | step {es : List LifeEvent} {w w' : World} {x : LifeEvent} : Lived e w₀ es w →
      LifeStep e w x w' → Lived e w₀ (es ++ [x]) w'
  | elsewhere {es : List LifeEvent} {w w' : World} : Lived e w₀ es w → w.Elsewhere e w' →
      Lived e w₀ es w'

/-! ### What a step does -/

namespace World

/-- The queues wait as before, and no heap was released. -/
structure Undisturbed (w w' : World) : Prop where
  waiting : ∀ c, w'.waitingTasks c = w.waitingTasks c
  tracked : ∀ h, w'.tracked h = w.tracked h
  scopes : w'.scopes = w.scopes

/-- **A period on a context is over:** no task waits there, its heap is released, and that is all. -/
structure PeriodOver (c : Ref .context) (w w' : World) : Prop where
  waiting : w'.waitingTasks c = []
  tracked : w'.tracked (w.contextHeap c) = []
  emptied : ∀ s ∈ w.tracked (w.contextHeap c),
    w'.scopes.get? s = (w.scopes.get? s).map Scope.emptied
  otherQueues : ∀ c', c' ≠ c → w'.waitingTasks c' = w.waitingTasks c'
  otherHeaps : ∀ h, h ≠ w.contextHeap c → w'.tracked h = w.tracked h
  otherScopes : ∀ s, s ∉ w.tracked (w.contextHeap c) → w'.scopes.get? s = w.scopes.get? s

variable {w w₁ w₂ : World} {e : Ref .environment} {c : Ref .context}

theorem Undisturbed.trans (h : Undisturbed w w₁) (h' : Undisturbed w₁ w₂) : Undisturbed w w₂ :=
  ⟨fun c => (h'.waiting c).trans (h.waiting c), fun x => (h'.tracked x).trans (h.tracked x),
    h'.scopes.trans h.scopes⟩

theorem PeriodOver.undisturbed (h : PeriodOver c w w₁) (h' : Undisturbed w₁ w₂) :
    PeriodOver c w w₂ where
  waiting := (h'.waiting c).trans h.waiting
  tracked := (h'.tracked _).trans h.tracked
  emptied s hs := by rw [h'.scopes, h.emptied s hs]
  otherQueues c' hc := (h'.waiting c').trans (h.otherQueues c' hc)
  otherHeaps x hx := (h'.tracked x).trans (h.otherHeaps x hx)
  otherScopes s hs := by rw [h'.scopes, h.otherScopes s hs]

theorem Persists.trans (h : Persists e w w₁) (h' : Persists e w₁ w₂) : Persists e w w₂ :=
  ⟨fun x => h'.environment (h.environment x), fun c x => h'.contexts c (h.contexts c x)⟩

theorem Elsewhere.trans (h : Elsewhere e w w₁) (h' : Elsewhere e w₁ w₂) : Elsewhere e w w₂ :=
  ⟨h.toPersists.trans h'.toPersists, h'.activity.trans h.activity⟩

/-! #### Changes that end no period -/

/-- A table that changes one of its things still has the same. -/
theorem isSome_update {k : Kind} {α : Type} (t : Table k α) (i j : Ref k) (f : α → α) :
    ((t.update i f).get? j).isSome = (t.get? j).isSome := by
  rw [Table.get?_update]
  split
  · exact Option.isSome_map
  · rfl

theorem activity?_update (w : World) (e e' : Ref .environment) {f : Environment → Environment}
    (hf : ∀ x, (f x).active = x.active) :
    ({ w with environments := w.environments.update e f } : World).activity? e' =
      w.activity? e' := by
  show ((w.environments.update e f).get? e').bind (·.active) =
    (w.environments.get? e').bind (·.active)
  rw [Table.get?_update]
  split
  · cases w.environments.get? e' with
    | none => rfl
    | some x => exact hf x
  · rfl

/-- What is active is what was last set, in an environment that exists. -/
theorem activity?_setActivity (h : (w.environment? e).isSome) (a : Option Activity) :
    (w.setActivity e a).activity? e = a := by
  obtain ⟨x, hx⟩ := Option.isSome_iff_exists.1 h
  have hget : (w.setActivity e a).environment? e = some { x with active := a } := by
    show (w.environments.update e _).get? e = _
    rw [Table.get?_update, if_pos rfl, show w.environments.get? e = some x from hx]
    rfl
  rw [activity?, hget]
  rfl

/-- One environment's activity is not another's. -/
theorem activity?_setActivity_of_ne {e' : Ref .environment} (h : e ≠ e') (a : Option Activity) :
    (w.setActivity e a).activity? e' = w.activity? e' := by
  show ((w.environments.update e _).get? e').bind (·.active) =
    (w.environments.get? e').bind (·.active)
  rw [Table.get?_update, if_neg h]

theorem setActivity_undisturbed (w : World) (e : Ref .environment) (a : Option Activity) :
    Undisturbed w (w.setActivity e a) :=
  ⟨fun _ => rfl, fun _ => rfl, rfl⟩

theorem setActivity_persists (w : World) (e e' : Ref .environment) (a : Option Activity) :
    Persists e' w (w.setActivity e a) :=
  ⟨fun h => (isSome_update w.environments e e' _).trans h, fun _ => id⟩

/-- One holder more or less, of an environment and of a context. -/
theorem held_elsewhere (w : World) (e e' : Ref .environment) (c : Ref .context)
    {f : Environment → Environment} {g : Context → Context} (hf : ∀ x, (f x).active = x.active) :
    Elsewhere e' w
      (({ w with environments := w.environments.update e f } : World).changeContext c g) where
  environment h := (isSome_update w.environments e e' f).trans h
  contexts c' h := (isSome_update w.contexts c c' g).trans h
  activity := w.activity?_update e e' hf

theorem held_undisturbed (w : World) (e : Ref .environment) (c : Ref .context)
    {f : Environment → Environment} {g : Context → Context} (hg : ∀ x, (g x).queue = x.queue) :
    Undisturbed w
      (({ w with environments := w.environments.update e f } : World).changeContext c g) where
  waiting c' := World.waitingTasks_changeContext _ c c' hg
  tracked _ := rfl
  scopes := rfl

/-- The world with a new context for an environment. -/
def begun (w : World) (e : Ref .environment) : World :=
  { w.addHeap with contexts := w.contexts.add { heap := w.heaps.fresh } }.setActivity e
    (some ⟨w.contexts.fresh, 1⟩)

theorem begun_undisturbed (w : World) (e : Ref .environment) : Undisturbed w (w.begun e) where
  waiting c := by
    have hget : (w.begun e).context? c =
        if c = w.contexts.fresh then some { heap := w.heaps.fresh } else w.context? c :=
      Table.get?_add w.contexts _ c
    rw [waitingTasks, waitingTasks, hget]
    by_cases hc : c = w.contexts.fresh
    -- no task waits on a context that did not exist
    · have hnone : w.context? c = none := hc ▸ w.contexts.get?_fresh
      rw [if_pos hc, hnone]
    · rw [if_neg hc]
  tracked h := congrArg Heap.scopes (w.heap_addHeap h)
  scopes := rfl

theorem begun_persists (w : World) (e e' : Ref .environment) : Persists e' w (w.begun e) where
  environment h := (isSome_update w.environments e e' _).trans h
  contexts c h := by
    show ((w.contexts.add _).get? c).isSome
    rw [Table.get?_add]
    split
    · rfl
    · exact h

/-! #### The end of a period -/

theorem endPeriod_persists (w : World) (c : Ref .context) (e : Ref .environment) :
    Persists e w (w.endPeriod c) where
  environment h := by rwa [environment?, (endPeriod_aside w c).environments]
  contexts c' h := by
    rw [(endPeriod_aside w c).context?]
    exact (isSome_update w.contexts c c' _).trans h

theorem tracked_release_of_ne {h h' : Ref .heap} (hne : h' ≠ h) :
    (w.release h).tracked h' = w.tracked h' := by
  rw [tracked, heaps_release, Table.get?_update, if_neg (Ne.symm hne), tracked]

theorem endPeriod_over (w : World) (c : Ref .context) : PeriodOver c w (w.endPeriod c) := by
  have hwaiting : ∀ c', (w.endPeriod c).waitingTasks c' = (w.clearQueue c).waitingTasks c' :=
    fun c' => by rw [waitingTasks, waitingTasks, (endPeriod_aside w c).context?]
  refine ⟨?_, (released (w.clearQueue c) _).1, (released (w.clearQueue c) _).2, fun c' hc => ?_,
    fun h hh => tracked_release_of_ne hh, fun s hs => ?_⟩
  · rw [hwaiting, waitingTasks_clearQueue]
  · have hother : (w.clearQueue c).context? c' = w.context? c' :=
      w.context?_changeContext_of_ne (Ne.symm hc) _
    rw [hwaiting, waitingTasks, waitingTasks, hother]
  · show (((w.clearQueue c).tracked _).foldl emptyScope (w.clearQueue c)).scopes.get? s = _
    rw [get?_emptyScopes]
    exact if_neg hs

end World

/-! #### Acquisitions and releases -/

namespace Environment

variable {e : Ref .environment} {w : World} {a : Activity}

theorem acquire_active {ε : Type} (h : w.activity? e = some a) :
    (acquire e : Run ε (Ref .context)) w =
      (.done a.context, w.setActivity e (some { a with depth := a.depth + 1 })) := by
  unfold acquire
  rw [Run.bind_of_done (Run.read_apply _ _), h]
  rfl

theorem acquire_idle {ε : Type} (h : w.activity? e = none) :
    (acquire e : Run ε (Ref .context)) w = (.done w.contexts.fresh, w.begun e) := by
  unfold acquire
  rw [Run.bind_of_done (Run.read_apply _ _), h]
  rfl

theorem release_idle (h : w.activity? e = none) :
    release e w = Run.ofExcept (.error (.lifecycleMisuse .noContext)) w := by
  unfold release
  rw [Run.bind_of_done (Run.read_apply _ _), h]
  rfl

theorem release_nested (h : w.activity? e = some a) (hd : 1 < a.depth) :
    release e w = Run.ofExcept (.ok ())
      (w.setActivity e (some { a with depth := a.depth - 1 })) := by
  unfold release
  rw [Run.bind_of_done (Run.read_apply _ _), h]
  dsimp only
  rw [if_pos hd]
  rfl

theorem release_last (h : w.activity? e = some a) (hd : ¬ 1 < a.depth) :
    release e w = Run.ofExcept (.ok ()) ((w.setActivity e none).endPeriod a.context) := by
  unfold release
  rw [Run.bind_of_done (Run.read_apply _ _), h]
  dsimp only
  rw [if_neg hd]
  rfl

/-- How an acquisition ends: it attaches to the period that there is, or it begins one. -/
theorem acquire_cases {c : Ref .context} {w₁ : World}
    (h : (acquire e : Hosted (Ref .context)) w = (.done c, w₁)) :
    (∃ a, w.activity? e = some a ∧ c = a.context ∧
      w₁ = w.setActivity e (some { a with depth := a.depth + 1 })) ∨
    (w.activity? e = none ∧ c = w.contexts.fresh ∧ w₁ = w.begun e) := by
  cases ha : w.activity? e with
  | some a =>
    rw [acquire_active ha] at h
    obtain ⟨hc, rfl⟩ := Prod.mk.inj h
    exact .inl ⟨a, rfl, (Outcome.done.inj hc).symm, rfl⟩
  | none =>
    rw [acquire_idle ha] at h
    obtain ⟨hc, rfl⟩ := Prod.mk.inj h
    exact .inr ⟨rfl, (Outcome.done.inj hc).symm, rfl⟩

/-- How a release ends: it fails, or it detaches from the period, or it ends it. -/
theorem release_cases {r : Except HostError Unit} {w₁ : World}
    (h : release e w = Run.ofExcept r w₁) :
    (w.activity? e = none ∧ r = .error (.lifecycleMisuse .noContext) ∧ w₁ = w) ∨
    (∃ a, w.activity? e = some a ∧ 1 < a.depth ∧ r = .ok () ∧
      w₁ = w.setActivity e (some { a with depth := a.depth - 1 })) ∨
    ∃ a, w.activity? e = some a ∧ ¬ 1 < a.depth ∧ r = .ok () ∧
      w₁ = (w.setActivity e none).endPeriod a.context := by
  cases ha : w.activity? e with
  | none =>
    obtain ⟨rfl, rfl⟩ := Run.ofExcept_inj ((release_idle ha).symm.trans h)
    exact .inl ⟨rfl, rfl, rfl⟩
  | some a =>
    by_cases hd : 1 < a.depth
    · obtain ⟨rfl, rfl⟩ := Run.ofExcept_inj ((release_nested ha hd).symm.trans h)
      exact .inr (.inl ⟨a, rfl, hd, rfl, rfl⟩)
    · obtain ⟨rfl, rfl⟩ := Run.ofExcept_inj ((release_last ha hd).symm.trans h)
      exact .inr (.inr ⟨a, rfl, hd, rfl, rfl⟩)

end Environment

/-- What a guard does besides: it keeps the environment and the context alive, or does so no longer. -/
inductive World.Guarded (e : Ref .environment) (w : World) : World → Prop
  | unguarded : Guarded e w w
  | entered (c : Ref .context) : Guarded e w ((w.keep e).hold c)
  | left (c : Ref .context) : Guarded e w ((w.abandon e).letGo c)

namespace World.Guarded

variable {e : Ref .environment} {w w' : World}

theorem elsewhere (h : w.Guarded e w') (e' : Ref .environment) : w.Elsewhere e' w' := by
  cases h with
  | unguarded => exact ⟨⟨id, fun _ => id⟩, rfl⟩
  | entered c => exact w.held_elsewhere e e' c fun _ => rfl
  | left c => exact w.held_elsewhere e e' c fun _ => rfl

theorem undisturbed (h : w.Guarded e w') : w.Undisturbed w' := by
  cases h with
  | unguarded => exact ⟨fun _ => rfl, fun _ => rfl, rfl⟩
  | entered c => exact w.held_undisturbed e c fun _ => rfl
  | left c => exact w.held_undisturbed e c fun _ => rfl

end World.Guarded

/-- **A step is an acquisition or a release,** in a guard or not. -/
theorem LifeStep.parts {e : Ref .environment} {w w' : World} {x : LifeEvent} (h : LifeStep e w x w') :
    ∃ w₁, w₁.Guarded e w' ∧
      ((∃ c, x = .acquired c ∧ (Environment.acquire e : Hosted (Ref .context)) w = (.done c, w₁)) ∨
        ∃ r, x = .ofRelease r ∧ Environment.release e w = Run.ofExcept r w₁) := by
  cases h with
  | acquire h => exact ⟨_, .unguarded, .inl ⟨_, rfl, h⟩⟩
  | @enter g _ h =>
    obtain ⟨c, w₁, hacquire, hrest⟩ := Run.exists_of_bind_done h
    obtain ⟨rfl, rfl⟩ : (⟨e, c⟩ : Guard) = g ∧ (w₁.keep e).hold c = w' :=
      ⟨Outcome.done.inj (Prod.mk.inj hrest).1, (Prod.mk.inj hrest).2⟩
    exact ⟨w₁, .entered c, .inl ⟨c, rfl, hacquire⟩⟩
  | release h => exact ⟨_, .unguarded, .inr ⟨_, rfl, h⟩⟩
  | @leave c r w₁ _ hrelease h =>
    obtain rfl : (w₁.abandon e).letGo c = w' := by
      unfold Guard.leave at h
      rw [Run.bind_of_done (Run.attempt_of_eq hrelease)] at h
      exact (Prod.mk.inj h).2
    exact ⟨w₁, .left c, .inr ⟨r, rfl, hrelease⟩⟩

/-- **Everything that a step can do:** begin a period, attach to one, fail where there is none, detach
from one, or end it. -/
inductive LifeStep.Effect (e : Ref .environment) (w : World) : LifeEvent → World → Prop
  | begin {w' : World} : w.activity? e = none → w'.activity? e = some ⟨w.contexts.fresh, 1⟩ →
      (w'.context? w.contexts.fresh).isSome → w.Undisturbed w' →
      Effect e w (.acquired w.contexts.fresh) w'
  | attach {a : Activity} {w' : World} : w.activity? e = some a →
      w'.activity? e = some { a with depth := a.depth + 1 } → w.Undisturbed w' →
      Effect e w (.acquired a.context) w'
  | refuse {w' : World} : w.activity? e = none → w'.activity? e = none → w.Undisturbed w' →
      Effect e w .refused w'
  | detach {a : Activity} {w' : World} : w.activity? e = some a → 1 < a.depth →
      w'.activity? e = some { a with depth := a.depth - 1 } → w.Undisturbed w' →
      Effect e w .released w'
  | finish {a : Activity} {w' : World} : w.activity? e = some a → ¬ 1 < a.depth →
      w'.activity? e = none → w.PeriodOver a.context w' → Effect e w .released w'

namespace LifeStep

variable {e : Ref .environment} {w w' : World} {x : LifeEvent}

/-- An effect is not disturbed by what happens elsewhere. -/
theorem Effect.elsewhere {w₁ : World} (h : Effect e w x w₁) (hs : w₁.Elsewhere e w')
    (hu : w₁.Undisturbed w') : Effect e w x w' := by
  cases h with
  | begin h₀ h₁ hc h => exact .begin h₀ (hs.activity.trans h₁) (hs.contexts _ hc) (h.trans hu)
  | attach h₀ h₁ h => exact .attach h₀ (hs.activity.trans h₁) (h.trans hu)
  | refuse h₀ h₁ h => exact .refuse h₀ (hs.activity.trans h₁) (h.trans hu)
  | detach h₀ hd h₁ h => exact .detach h₀ hd (hs.activity.trans h₁) (h.trans hu)
  | finish h₀ hd h₁ h => exact .finish h₀ hd (hs.activity.trans h₁) (h.undisturbed hu)

theorem acquire_effect (he : (w.environment? e).isSome) {c : Ref .context} {w₁ : World}
    (h : (Environment.acquire e : Hosted (Ref .context)) w = (.done c, w₁)) :
    Effect e w (.acquired c) w₁ ∧ w.Persists e w₁ := by
  rcases Environment.acquire_cases h with ⟨a, ha, rfl, rfl⟩ | ⟨ha, rfl, rfl⟩
  · exact ⟨.attach ha (World.activity?_setActivity he _) (w.setActivity_undisturbed e _),
      w.setActivity_persists e e _⟩
  · refine ⟨.begin ha ?_ ?_ (w.begun_undisturbed e), w.begun_persists e e⟩
    · exact World.activity?_setActivity (w := { w.addHeap with
        contexts := w.contexts.add { heap := w.heaps.fresh } }) he _
    · show ((w.contexts.add _).get? w.contexts.fresh).isSome
      rw [Table.get?_add_fresh]
      rfl

theorem release_effect (he : (w.environment? e).isSome) {r : Except HostError Unit} {w₁ : World}
    (h : Environment.release e w = Run.ofExcept r w₁) :
    Effect e w (.ofRelease r) w₁ ∧ w.Persists e w₁ := by
  rcases Environment.release_cases h with ⟨ha, rfl, rfl⟩ | ⟨a, ha, hd, rfl, rfl⟩ | ⟨a, ha, hd, rfl, rfl⟩
  · exact ⟨.refuse ha ha ⟨fun _ => rfl, fun _ => rfl, rfl⟩, ⟨id, fun _ => id⟩⟩
  · exact ⟨.detach ha hd (World.activity?_setActivity he _) (w.setActivity_undisturbed e _),
      w.setActivity_persists e e _⟩
  · have hnone : ((w.setActivity e none).endPeriod a.context).activity? e = none := by
      have henv := (World.endPeriod_aside (w.setActivity e none) a.context).environments
      rw [World.activity?, World.environment?, henv]
      exact World.activity?_setActivity he none
    -- neither queues nor scopes depend on what is active
    have hover := (w.setActivity e none).endPeriod_over a.context
    exact ⟨.finish ha hd hnone ⟨hover.waiting, hover.tracked, hover.emptied, hover.otherQueues,
        hover.otherHeaps, hover.otherScopes⟩,
      (w.setActivity_persists e e none).trans (World.endPeriod_persists _ _ e)⟩

/-- **What a step does,** where the environment exists. -/
theorem effect (he : (w.environment? e).isSome) (h : LifeStep e w x w') :
    Effect e w x w' ∧ w.Persists e w' := by
  obtain ⟨w₁, hguard, ⟨c, rfl, hacquire⟩ | ⟨r, rfl, hrelease⟩⟩ := h.parts
  · obtain ⟨heffect, hpersists⟩ := acquire_effect he hacquire
    exact ⟨heffect.elsewhere (hguard.elsewhere e) hguard.undisturbed,
      hpersists.trans (hguard.elsewhere e).toPersists⟩
  · obtain ⟨heffect, hpersists⟩ := release_effect he hrelease
    exact ⟨heffect.elsewhere (hguard.elsewhere e) hguard.undisturbed,
      hpersists.trans (hguard.elsewhere e).toPersists⟩

end LifeStep

/-! ### What holds in a life -/

namespace Environment.Lived

open LifeEvent

variable {e : Ref .environment} {w₀ w : World} {es : List LifeEvent}

/-- The environment goes on to exist, and so do the context that is active and all that ever were. -/
theorem exists_still (h : Lived e w₀ es w) (he : (w₀.environment? e).isSome)
    (h₀ : w₀.activity? e = none) :
    (w.environment? e).isSome ∧ (∀ a, w.activity? e = some a → (w.context? a.context).isSome) ∧
      ∀ c, .acquired c ∈ es → (w.context? c).isSome := by
  induction h with
  | start => exact ⟨he, fun a ha => absurd (h₀.symm.trans ha) nofun, nofun⟩
  | elsewhere _ hs ih =>
    exact ⟨hs.environment ih.1, fun a ha => hs.contexts _ (ih.2.1 a (hs.activity.symm.trans ha)),
      fun c hc => hs.contexts c (ih.2.2 c hc)⟩
  | @step es w w' x hlived hstep ih =>
    obtain ⟨heffect, hpersists⟩ := hstep.effect ih.1
    -- what is active now was active before or is new, and it is what was acquired, if anything was
    obtain ⟨hactive, hacquired⟩ : (∀ a, w'.activity? e = some a → (w'.context? a.context).isSome) ∧
        ∀ c, x = .acquired c → (w'.context? c).isSome := by
      cases heffect with
      | begin hw hw' hc _ =>
        exact ⟨fun a ha => by cases hw'.symm.trans ha; exact hc, fun c h => by cases h; exact hc⟩
      | attach hw hw' _ =>
        have hc := hpersists.contexts _ (ih.2.1 _ hw)
        exact ⟨fun a ha => by cases hw'.symm.trans ha; exact hc, fun c h => by cases h; exact hc⟩
      | refuse hw hw' _ => exact ⟨fun a ha => absurd (hw'.symm.trans ha) nofun, nofun⟩
      | detach hw hd hw' _ =>
        have hc := hpersists.contexts _ (ih.2.1 _ hw)
        exact ⟨fun a ha => by cases hw'.symm.trans ha; exact hc, nofun⟩
      | finish hw hd hw' _ => exact ⟨fun a ha => absurd (hw'.symm.trans ha) nofun, nofun⟩
    refine ⟨hpersists.environment ih.1, hactive, fun c hc => ?_⟩
    rcases List.mem_append.1 hc with hc | hc
    · exact hpersists.contexts c (ih.2.2 c hc)
    · exact hacquired c (List.mem_singleton.1 hc).symm

/-- **The depth is how many acquisitions have not been released,** and there is one as long as there
is a period. -/
theorem depth (h : Lived e w₀ es w) (he : (w₀.environment? e).isSome)
    (h₀ : w₀.activity? e = none) :
    match w.activity? e with
    | some a => 1 ≤ a.depth ∧ a.depth + releases es = acquisitions es
    | none => releases es = acquisitions es := by
  -- only a last release and a first acquisition change whether there is a period
  induction h with
  | start =>
    rw [h₀]
    rfl
  | elsewhere _ hs ih => rwa [hs.activity]
  | step hlived hstep ih =>
    cases (hstep.effect (hlived.exists_still he h₀).1).1 with
    | begin hw hw' _ _ =>
      rw [hw] at ih
      rw [hw', releases_acquired, acquisitions_acquired]
      exact ⟨Nat.le_refl 1, by dsimp only at ih ⊢; omega⟩
    | attach hw hw' _ =>
      rw [hw] at ih
      rw [hw', releases_acquired, acquisitions_acquired]
      exact ⟨by dsimp only; omega, by dsimp only at ih ⊢; omega⟩
    | refuse hw hw' _ =>
      rw [hw] at ih
      rw [hw', releases_refused, acquisitions_refused]
      exact ih
    | detach hw hd hw' _ =>
      rw [hw] at ih
      rw [hw', releases_released, acquisitions_released]
      exact ⟨by dsimp only; omega, by dsimp only at ih ⊢; omega⟩
    | finish hw hd hw' _ =>
      rw [hw] at ih
      rw [hw', releases_released, acquisitions_released]
      dsimp only at ih ⊢
      omega

/-- A context is active when more acquisitions than releases have been seen. -/
theorem isSome_activity (h : Lived e w₀ es w) (he : (w₀.environment? e).isSome)
    (h₀ : w₀.activity? e = none) : (w.activity? e).isSome ↔ Open es := by
  have hdepth := h.depth he h₀
  unfold Open
  cases ha : w.activity? e with
  | none =>
    rw [ha] at hdepth
    exact ⟨nofun, fun hlt => absurd hlt (by dsimp only at hdepth; omega)⟩
  | some a =>
    rw [ha] at hdepth
    exact ⟨fun _ => by dsimp only at hdepth; omega, fun _ => rfl⟩

/-- **What an acquisition got is active as long as its period lasts:** as long as more acquisitions
than releases have been seen at every moment since. -/
theorem current_iff (h : Lived e w₀ es w) (he : (w₀.environment? e).isSome)
    (h₀ : w₀.activity? e = none) {before after : List LifeEvent} {c : Ref .context}
    (hes : es = before ++ .acquired c :: after) :
    w.currentContext? e = some c ↔ ∀ now, now <+: after → Open (before ++ .acquired c :: now) := by
  induction h generalizing after with
  | start => exact absurd hes (by simp)
  | elsewhere _ hs ih =>
    rw [World.currentContext?, hs.activity]
    exact ih hes
  | @step es w w' x hlived hstep ih =>
    have hexists := hlived.exists_still he h₀
    have heffect := (hstep.effect hexists.1).1
    have hopen := (hlived.step hstep).isSome_activity he h₀
    rw [World.currentContext?]
    rcases List.eq_nil_or_concat after with rfl | ⟨earlier, y, rfl⟩
    · -- the acquisition was the last step
      obtain ⟨rfl, hx⟩ := List.append_inj' hes rfl
      obtain rfl : x = .acquired c := (List.cons.inj hx).1
      have hcurrent : (w'.activity? e).map (·.context) = some c := by
        cases heffect with
        | begin _ hw' _ _ => rw [hw']; rfl
        | attach _ hw' _ => rw [hw']; rfl
      refine ⟨fun _ now hnow => ?_, fun _ => hcurrent⟩
      rw [List.prefix_nil.1 hnow]
      exact hopen.1 (by simpa using congrArg Option.isSome hcurrent)
    · -- the period lasts if it lasted before and the last step did not end it
      have hes' : es ++ [x] = (before ++ .acquired c :: earlier) ++ [y] := by simpa using hes
      obtain ⟨rfl, hy⟩ := List.append_inj' hes' rfl
      obtain rfl : x = y := (List.cons.inj hy).1
      have hacquired : (w.context? c).isSome := hexists.2.2 c (by simp)
      have hprefixes : (∀ now, now <+: earlier.concat x → Open (before ++ .acquired c :: now)) ↔
          (∀ now, now <+: earlier → Open (before ++ .acquired c :: now)) ∧
            (w'.activity? e).isSome := by
        rw [hopen]
        simp only [List.concat_eq_append, List.prefix_concat_iff]
        refine ⟨fun hall => ⟨fun now hnow => hall now (.inr hnow), ?_⟩, fun hboth now hnow => ?_⟩
        · simpa using hall _ (.inl rfl)
        · rcases hnow with rfl | hnow
          · simpa using hboth.2
          · exact hboth.1 now hnow
      rw [hprefixes, ← ih rfl, World.currentContext?]
      cases heffect with
      | begin hw hw' _ _ =>
        rw [hw, hw']
        -- the new context is none that was there before
        refine ⟨fun heq => ?_, fun hboth => absurd hboth.1 nofun⟩
        obtain rfl : w.contexts.fresh = c := Option.some.inj heq
        have hnone : w.context? w.contexts.fresh = none := w.contexts.get?_fresh
        rw [hnone] at hacquired
        exact absurd hacquired nofun
      | attach hw hw' _ =>
        rw [hw, hw']
        exact ⟨fun heq => ⟨heq, rfl⟩, And.left⟩
      | refuse hw hw' _ =>
        rw [hw, hw']
        exact ⟨fun heq => absurd heq nofun, fun hboth => absurd hboth.1 nofun⟩
      | detach hw _ hw' _ =>
        rw [hw, hw']
        exact ⟨fun heq => ⟨heq, rfl⟩, And.left⟩
      | finish hw _ hw' _ =>
        rw [hw']
        exact ⟨fun heq => absurd heq nofun, fun hboth => absurd hboth.2 nofun⟩

/-- Each event of a life has been a step of it. -/
theorem exists_step {before after : List LifeEvent} {x : LifeEvent} (h : Lived e w₀ es w)
    (hes : es = before ++ x :: after) :
    ∃ w₁ w₂, Lived e w₀ before w₁ ∧ LifeStep e w₁ x w₂ := by
  induction h generalizing after with
  | start => exact absurd hes (by simp)
  | elsewhere _ _ ih => exact ih hes
  | @step es w w' y hlived hstep ih =>
    rcases List.eq_nil_or_concat after with rfl | ⟨earlier, z, rfl⟩
    · obtain ⟨rfl, hx⟩ := List.append_inj' hes rfl
      obtain rfl : y = x := (List.cons.inj hx).1
      exact ⟨w, w', hlived, hstep⟩
    · have hes' : es ++ [y] = (before ++ x :: earlier) ++ [z] := by simpa using hes
      exact ih (List.append_inj' hes' rfl).1

/-- **Acquisitions of one period get the same context, and those of different periods do not.** -/
theorem same_context_iff (h : Lived e w₀ es w) (he : (w₀.environment? e).isSome)
    (h₀ : w₀.activity? e = none) {before between after : List LifeEvent} {c c' : Ref .context}
    (hes : es = before ++ .acquired c :: (between ++ .acquired c' :: after)) :
    c = c' ↔ ∀ now, now <+: between → Open (before ++ .acquired c :: now) := by
  have hes' : es = (before ++ .acquired c :: between) ++ .acquired c' :: after := by simp [hes]
  obtain ⟨w₁, w₂, hlived, hstep⟩ := h.exists_step hes'
  have hexists := hlived.exists_still he h₀
  rw [← hlived.current_iff he h₀ rfl, World.currentContext?]
  cases (hstep.effect hexists.1).1 with
  | begin hw _ _ _ =>
    rw [hw]
    refine ⟨fun heq => ?_, fun heq => absurd heq nofun⟩
    have hacquired : (w₁.context? c).isSome := hexists.2.2 c (by simp)
    have hnone : w₁.context? c = none := heq ▸ w₁.contexts.get?_fresh
    rw [hnone] at hacquired
    exact absurd hacquired nofun
  | attach hw _ _ =>
    rw [hw]
    exact ⟨fun heq => congrArg some heq.symm, fun heq => (Option.some.inj heq).symm⟩

end Environment.Lived

/-! ### What happens elsewhere -/

/-- Whatever machines do, they neither acquire nor release. -/
theorem Deed.run_elsewhere (n : Nat) (d : Deed) (e : Ref .environment) {w w' : World}
    (h : d.run (.ofFuel n) w = (.done (), w')) : w.Elsewhere e w' := by
  have L := anchors_lawful
  have hsame : World.SameAnchors w w' :=
    (d.run_keeps L (Machine.ofFuel_keeps L n) w []).of_eq (r := .ok ()) ⟨rfl, fun _ => rfl⟩ h
  refine ⟨⟨fun he => ?_, fun c hc => ?_⟩, ?_⟩
  · rwa [World.environment?, hsame.environments]
  · -- a context exists when it has a heap
    have hheap := congrArg Option.isSome (hsame.heaps c)
    rw [World.heapAt?, World.heapAt?, Option.isSome_map, Option.isSome_map] at hheap
    exact hheap.trans hc
  · rw [World.activity?, World.activity?, World.environment?, World.environment?,
      hsame.environments]

/-- Acquisitions and releases of another environment are none of this one. -/
theorem LifeStep.elsewhere {e e' : Ref .environment} {w w' : World} {x : LifeEvent} (hne : e' ≠ e)
    (h : LifeStep e' w x w') : w.Elsewhere e w' := by
  obtain ⟨w₁, hguard, ⟨c, -, hacquire⟩ | ⟨r, -, hrelease⟩⟩ := h.parts
  · refine World.Elsewhere.trans ?_ (hguard.elsewhere e)
    rcases Environment.acquire_cases hacquire with ⟨a, -, -, rfl⟩ | ⟨-, -, rfl⟩
    · exact ⟨w.setActivity_persists e' e _, World.activity?_setActivity_of_ne hne _⟩
    · exact ⟨w.begun_persists e' e, World.activity?_setActivity_of_ne (w := { w.addHeap with
        contexts := w.contexts.add { heap := w.heaps.fresh } }) hne _⟩
  · refine World.Elsewhere.trans ?_ (hguard.elsewhere e)
    rcases Environment.release_cases hrelease with ⟨-, -, rfl⟩ | ⟨a, -, -, -, rfl⟩ | ⟨a, -, -, -, rfl⟩
    · exact ⟨⟨id, fun _ => id⟩, rfl⟩
    · exact ⟨w.setActivity_persists e' e _, World.activity?_setActivity_of_ne hne _⟩
    · refine ⟨(w.setActivity_persists e' e none).trans (World.endPeriod_persists _ _ e), ?_⟩
      rw [World.activity?, World.environment?,
        (World.endPeriod_aside (w.setActivity e' none) a.context).environments]
      exact World.activity?_setActivity_of_ne hne none

/-! ### The whole life -/

open LifeEvent in
/-- **Acquisitions and releases of an environment match,** whatever happens in between. A context is
active while more acquisitions than releases have been seen, and the depth is their difference, so
that it is never below one when it is lowered. An acquisition never fails, and a release fails where
no context is active, changing nothing. Acquisitions of one period get one context, and those of
different periods different ones. The release that ends a period empties the queue of its context and
releases its heap, and no other step of the life does this. What machines do, and what becomes of
other environments, is no step of it. -/
theorem Environment.Lived.periods {e : Ref .environment} {w₀ w : World} {es : List LifeEvent}
    (he : (w₀.environment? e).isSome) (h₀ : w₀.activity? e = none) (h : Lived e w₀ es w) :
    ((w.currentContext? e).isSome ↔ Open es) ∧
    (∀ a, w.activity? e = some a → 1 ≤ a.depth ∧ a.depth + releases es = acquisitions es) ∧
    (∃ c w', (acquire e : Hosted (Ref .context)) w = (.done c, w')) ∧
    (match release e w with
      | (.done (), _) => Open es
      | (.failed err, w') => ¬ Open es ∧ err = .lifecycleMisuse .noContext ∧ w' = w
      | (.exhausted, _) => False) ∧
    (∀ before between after c c',
      es = before ++ .acquired c :: (between ++ .acquired c' :: after) →
      (c = c' ↔ ∀ now, now <+: between → Open (before ++ .acquired c :: now))) ∧
    (∀ x w', LifeStep e w x w' →
      if x = .released ∧ acquisitions es = releases es + 1 then
        ∃ c, w.currentContext? e = some c ∧ w.PeriodOver c w'
      else w.Undisturbed w') ∧
    (∀ (d : Deed) n w', d.run (.ofFuel n) w = (.done (), w') → w.Elsewhere e w') ∧
    ∀ e' x w', e' ≠ e → LifeStep e' w x w' → w.Elsewhere e w' := by
  have hopen := h.isSome_activity he h₀
  have hdepth := h.depth he h₀
  have hexists := (h.exists_still he h₀).1
  refine ⟨?_, fun a ha => ?_, ?_, ?_, fun before between after c c' hes =>
    h.same_context_iff he h₀ hes, fun x w' hstep => ?_, fun d n w' hd => d.run_elsewhere n e hd,
    fun e' x w' hne hstep => hstep.elsewhere hne⟩
  · rw [World.currentContext?, Option.isSome_map]
    exact hopen
  · rw [ha] at hdepth
    exact hdepth
  · cases ha : w.activity? e with
    | none => exact ⟨_, _, acquire_idle ha⟩
    | some a => exact ⟨_, _, acquire_active ha⟩
  · cases ha : w.activity? e with
    | none =>
      rw [release_idle ha]
      exact ⟨fun ho => absurd (hopen.2 ho) (by rw [ha]; exact nofun), rfl, rfl⟩
    | some a =>
      have ho : Open es := hopen.1 (by rw [ha]; rfl)
      by_cases hd : 1 < a.depth
      · rw [release_nested ha hd]
        exact ho
      · rw [release_last ha hd]
        exact ho
  · -- only one kind of step ends a period: the release at depth one
    cases (hstep.effect hexists).1 with
    | begin _ _ _ hu | attach _ _ hu | refuse _ _ hu =>
      rw [if_neg fun hx => absurd hx.1 nofun]
      exact hu
    | detach ha hd _ hu =>
      rw [ha] at hdepth
      rw [if_neg fun hx => by dsimp only at hdepth; omega]
      exact hu
    | @finish a _ ha hd _ hover =>
      rw [ha] at hdepth
      rw [if_pos ⟨rfl, by dsimp only at hdepth; omega⟩]
      exact ⟨a.context, by rw [World.currentContext?, ha]; rfl, hover⟩

/-- A life of the environment of a page: it is entered by a guard, acquired once more, released twice
(the second time by the guard), released once too often, and acquired again. -/
theorem Environment.Lived.periods_of_page : ∃ w,
    Lived ⟨0⟩ .ofPage [.acquired ⟨1⟩, .acquired ⟨1⟩, .released, .released, .refused, .acquired ⟨2⟩] w ∧
      (World.ofPage.environment? ⟨0⟩).isSome ∧ World.ofPage.activity? ⟨0⟩ = none ∧
      (w.currentContext? ⟨0⟩).isSome ∧
      ((⟨1⟩ : Ref .context) = ⟨2⟩ ↔
        ∀ now, now <+: [.acquired ⟨1⟩, .released, .released, .refused] →
          LifeEvent.Open (.acquired ⟨1⟩ :: now)) := by
  have page : Lived ⟨0⟩ .ofPage [] .ofPage := .start
  obtain ⟨w, life⟩ : ∃ w, Lived ⟨0⟩ .ofPage
      [.acquired ⟨1⟩, .acquired ⟨1⟩, .released, .released, .refused, .acquired ⟨2⟩] w :=
    ⟨_, page.step (.enter rfl) |>.step (.acquire rfl)
      |>.step (.release (r := .ok ()) rfl) |>.step (.leave (c := ⟨1⟩) (r := .ok ()) rfl rfl)
      |>.step (.release (r := .error _) rfl) |>.step (.acquire rfl)⟩
  have law := Lived.periods rfl rfl life
  exact ⟨w, life, rfl, rfl, law.1.2 (by decide), law.2.2.2.2.1 [] _ [] _ _ rfl⟩

end ScriptModules
