import ScriptModules.Proofs.Load

/-!
# Runs of the host's code end

The host's code is finite trees of actions, so running it comes to an end, however completions,
listeners and tasks trigger one another. The measure is the size of all code that waits in the
world (`World.work`): an action may move code from its own tree into the world, and code that runs
is no longer there. So fuel beyond the work that waits and the code at hand is enough
(`Machine.ofFuel_finishes`).

This asks that the world holds code of the host only (`World.hostOnly`): scripts that wait in it
need not end. And no action may ask for the end of a chain of results, which has none if a container
holds itself.
-/

namespace ScriptModules

/-! ### The size of code -/

mutual

/-- The size of the code that an action may move into the world. -/
def Action.size : Action → Nat
  | .listen _ r => r.size
  | .schedule r => r.size
  | .scheduleByHandle r => r.size
  | .chain _ _ => 1
  | _ => 0

/-- The size of a routine, with all the code in it. -/
def Routine.size : Routine → Nat
  | .mk _ actions _ => Action.sizeAll actions + 1

/-- The size of actions together. -/
def Action.sizeAll : List Action → Nat
  | [] => 0
  | a :: rest => a.size + Action.sizeAll rest

end

mutual

/-- Whether an action asks for the end of a chain of results, now or later. -/
def Action.adapts : Action → Bool
  | .adapt _ => true
  | .listen _ r => r.adapts
  | .schedule r => r.adapts
  | .scheduleByHandle r => r.adapts
  | _ => false

/-- Whether a routine asks for the end of a chain of results, now or later. -/
def Routine.adapts : Routine → Bool
  | .mk _ actions _ => Action.anyAdapts actions

/-- Whether one of the actions does. -/
def Action.anyAdapts : List Action → Bool
  | [] => false
  | a :: rest => a.adapts || Action.anyAdapts rest

end

/-- The size of the code in a listener. -/
def Listener.size : Listener → Nat
  | .routine r => r.size
  | _ => 1

/-- One for a listener that may call a script or may not end. -/
def Listener.foreign : Listener → Nat
  | .gather _ _ => 1
  | .routine r => r.adapts.toNat
  | _ => 0

/-- The size of the host's code in a task. -/
def Task.size : Task → Nat
  | .routine r => r.size
  | _ => 0

/-- One for a task that calls a script or may not end. -/
def Task.foreign : Task → Nat
  | .routine r => r.adapts.toNat
  | _ => 1

theorem Routine.size_pos (r : Routine) : 0 < r.size := by
  obtain ⟨tag, actions, fails⟩ := r
  simp [Routine.size]

namespace World

/-- All that waits in the world is code of the host that ends. -/
def hostOnly (w : World) : Prop := w.load Listener.foreign Task.foreign = 0

/-- **The size of the code that waits in the world.** -/
def work (w : World) : Nat := w.load Listener.size Task.size

/-- Only code of the host waits, of at most the given size. -/
structure Under (b : Nat) (w : World) : Prop where
  hostOnly : w.hostOnly
  work : w.work ≤ b

namespace Under

variable {b b' : Nat} {w w' : World}

theorem mono (h : Under b w) (hb : b ≤ b') : Under b' w := ⟨h.1, Nat.le_trans h.2 hb⟩

/-- A step that adds nothing to any load. -/
theorem of_load_le (h : Under b w) (hl : ∀ p q, w'.load p q ≤ w.load p q) : Under b w' :=
  ⟨Nat.eq_zero_of_le_zero (Nat.le_trans (hl _ _) (Nat.le_of_eq h.1)), Nat.le_trans (hl _ _) h.2⟩

theorem mark (m : Moment) (h : Under b w) : Under b (w.mark m) := ⟨h.1, h.2⟩

theorem aside (hs : SameShared w w') (h : Under b w) : Under b w' :=
  h.of_load_le fun _ _ => Nat.le_of_eq (load_of_same hs)

theorem addContainer {x : Container} (hx : x.waiting = []) (h : Under b w) :
    Under b (w.addContainer x) :=
  h.of_load_le fun p q => by rw [load_addContainer, hx]; exact Nat.le_refl _

theorem enqueue {t : Task} (ht : t.foreign = 0) (c : Ref .context) (h : Under b w) :
    Under (b + t.size) (w.enqueue c t) := by
  -- the load counts twice: once the foreign code, once the size of all code
  have h₁ : (w.enqueue c t).load Listener.foreign Task.foreign ≤ _ := w.load_enqueue_le c t
  have h₂ : (w.enqueue c t).work ≤ _ := w.load_enqueue_le c t
  have h₃ : w.load Listener.foreign Task.foreign = 0 := h.1
  have h₄ : w.load Listener.size Task.size ≤ b := h.2
  exact ⟨by unfold World.hostOnly; omega, by omega⟩

theorem dequeue {c : Ref .context} {t : Task} (h : Under b w) (hd : w.dequeue c = (some t, w')) :
    t.foreign = 0 ∧ t.size ≤ b ∧ Under (b - t.size) w' := by
  have h₁ : w'.load Listener.foreign Task.foreign + _ = _ := load_dequeue hd
  have h₂ : w'.load Listener.size Task.size + _ = _ := load_dequeue hd
  have h₃ : w.load Listener.foreign Task.foreign = 0 := h.1
  have h₄ : w.load Listener.size Task.size ≤ b := h.2
  exact ⟨by omega, by omega, by unfold World.hostOnly; omega, by unfold World.work; omega⟩

/-- The listeners of a container are taken out of the world. -/
theorem resolve {c : Ref .container} {ls : List Listener} (h : Under b w)
    (hc : w.container c = .pending ls) (v : Value) :
    (ls.map Listener.foreign).sum = 0 ∧ (ls.map Listener.size).sum ≤ b ∧
      Under (b - (ls.map Listener.size).sum) (w.resolve c v) := by
  have h₁ : (w.resolve c v).load Listener.foreign Task.foreign + _ = _ := load_resolve hc v
  have h₂ : (w.resolve c v).load Listener.size Task.size + _ = _ := load_resolve hc v
  have h₃ : w.load Listener.foreign Task.foreign = 0 := h.1
  have h₄ : w.load Listener.size Task.size ≤ b := h.2
  exact ⟨by omega, by omega, by unfold World.hostOnly; omega, by unfold World.work; omega⟩

theorem await {c : Ref .container} {ls : List Listener} {l : Listener} (h : Under b w)
    (hc : w.container c = .pending ls) (hl : l.foreign = 0) :
    Under (b + l.size) (w.await c ls l) := by
  have h₁ : (w.await c ls l).load Listener.foreign Task.foreign ≤ _ := load_await_le hc l
  have h₂ : (w.await c ls l).load Listener.size Task.size ≤ _ := load_await_le hc l
  have h₃ : w.load Listener.foreign Task.foreign = 0 := h.1
  have h₄ : w.load Listener.size Task.size ≤ b := h.2
  exact ⟨by unfold World.hostOnly; omega, by unfold World.work; omega⟩

end Under

end World

open World (Under)

/-! ### Ending -/

/-- From a world with `P` the run ends, in a world with `Q`. -/
abbrev Run.Ends {ε α : Type} (P : World → Prop) (x : Run ε α) (Q : World → Prop) : Prop :=
  Run.Leads P x (fun _ => Q) fun _ => False

/-- A machine finishes what stays below some size: listeners, and queues. -/
structure Machine.Finishes (m : Machine) (n : Nat) : Prop where
  notify : ∀ b l v, l.foreign = 0 → b + l.size < n →
    Run.Ends (Under b) (m.notify l v) (Under (b + l.size - 1))
  drain : ∀ b c, b < n → Run.Ends (Under b) (m.drain c) (Under b)

namespace Machine.Finishes

variable {m : Machine} {n b : Nat} (h : m.Finishes n)

include h

theorem notifyAll (c : Ref .container) (v : Value) (ls : List Listener)
    (hf : (ls.map Listener.foreign).sum = 0) (hb : b + (ls.map Listener.size).sum < n) :
    Run.Ends (Under b) (Run.notifyAll m.notify c v ls) (Under (b + (ls.map Listener.size).sum)) := by
  induction ls generalizing b with
  | nil => exact Run.Keeps.pure
  | cons l rest ih =>
    simp only [List.map_cons, List.sum_cons] at hf hb ⊢
    -- `l` may leave code behind, but less than it was: there is fuel for the others
    refine Run.Leads.bind_mark (R := Under b) (fun w => Under.mark _) ?_
    refine Run.Leads.bind_attempt (h.notify b l v (by omega) (by omega)) fun first => ?_
    refine Run.Leads.bind_mark (R := Under (b + l.size))
      (fun w hw => (hw.mark _).mono (by omega)) ?_
    rw [← Nat.add_assoc]
    exact Run.Leads.bind (ih (by omega) (by omega)) (fun _ => Run.Keeps.pure) fun _ _ => id

theorem complete (c : Ref .container) (v : Value) (hb : b < n) :
    Run.Ends (Under b) (m.complete c v) (Under b) := by
  refine Run.Leads.bind_read fun x => ?_
  cases x with
  | resolved _ => exact Run.Leads.fail fun w hw => hw.1
  | pending ls =>
    intro w hw
    obtain ⟨hf, hs, hr⟩ := hw.1.resolve hw.2 v
    -- what the listeners weigh has left the world, so there is fuel to run them
    have told := h.notifyAll c v ls (b := b - (ls.map Listener.size).sum) hf (by omega)
    rw [show b - (ls.map Listener.size).sum + (ls.map Listener.size).sum = b by omega] at told
    have settled : Run.Ends (Under (b - (ls.map Listener.size).sum))
        (do
          let result ← Run.notifyAll m.notify c v ls
          Run.mark (.container c (.settled result))
          Run.ofExcept result) (Under b) :=
      Run.Leads.bind told (fun _ => Run.Keeps.bind (Run.Leads.mark fun w => Under.mark _) fun _ =>
        Run.Keeps.ofExcept) fun _ _ => id
    exact settled (w.resolve c v) hr

theorem listen (c : Ref .container) (l : Listener) (hf : l.foreign = 0) (hb : b + l.size < n) :
    Run.Ends (Under b) (m.listen c l) (Under (b + l.size)) := by
  refine Run.Leads.bind_read fun x => ?_
  cases x with
  | pending ls => exact Run.Leads.change fun w hw => hw.1.await hw.2 hf
  | resolved v =>
    refine Run.Leads.strengthen (P := Under b) ?_ fun w => And.left
    refine Run.Leads.bind_mark (R := Under b) (fun w => Under.mark _) ?_
    refine Run.Leads.bind_attempt (h.notify b l v hf hb) fun result => ?_
    exact Run.Leads.bind_mark (R := Under (b + l.size))
      (fun w hw => (hw.mark _).mono (by omega)) Run.Keeps.ofExcept

theorem schedule (c : Ref .context) (t : Task) (hf : t.foreign = 0) (hb : b + t.size < n) :
    Run.Ends (Under b) (m.schedule c t) (Under (b + t.size)) := by
  refine Run.Leads.bind_change (R := Under (b + t.size)) (fun w hw => hw.enqueue hf c) ?_
  refine Run.Keeps.bind Run.Keeps.read fun running => ?_
  -- beginning and ending a drain move no code
  have same : ∀ {w : World} {f : Context → Context}, (∀ x, (f x).queue = x.queue) →
      Under (b + t.size) w → Under (b + t.size) (w.changeContext c f) := fun hf hw =>
    hw.of_load_le fun _ _ => Nat.le_of_eq (World.load_changeContext _ c hf)
  split
  · exact Run.Keeps.pure
  · refine Run.Keeps.bind (Run.Leads.change fun w hw => ?_) fun _ => ?_
    · exact same (fun _ => rfl) (same (fun _ => rfl) hw)
    · exact Run.Keeps.andAlways (h.drain _ c hb) fun w hw =>
        same (fun _ => rfl) (same (fun _ => rfl) hw)

theorem scheduleByHandle (c : Ref .context) (t : Task) (hf : t.foreign = 0)
    (hb : b + t.size < n) : Run.Ends (Under b) (m.scheduleByHandle c t) (Under (b + t.size)) := by
  refine Run.Leads.bind (Q := fun _ => Under b) Run.Keeps.read (fun alive => ?_)
    fun _ _ hw => hw.mono (by omega)
  split
  · exact h.schedule c t hf hb
  · exact Run.Leads.fail fun w hw => hw.mono (by omega)

/-- An action ends, and leaves no more in the world than there was and than it brought. -/
theorem perform (a : Action) (ha : a.adapts = false) (hb : b + a.size < n) :
    Run.Ends (Under b) (a.perform m) (Under (b + a.size)) := by
  -- a number without a container is answered, and nothing happens
  have onNumbered : ∀ k {f : Ref .container → Hosted Answer} {Q : World → Prop},
      (∀ c, Run.Ends (Under b) (f c) Q) → (∀ w, Under b w → Q w) →
      Run.Ends (Under b) (Run.onNumbered k f) Q := by
    intro k f Q hf hn
    refine Run.Leads.bind (Q := fun _ => Under b) Run.Keeps.read (fun c => ?_) fun _ => hn
    cases c with
    | some c => exact hf c
    | none => exact Run.Leads.pure hn
  have onContext : ∀ {f : Ref .context → Hosted Answer}, (∀ c, Run.Ends (Under b) (f c) (Under b)) →
      Run.Ends (Under b) (Run.onContext f) (Under b) := by
    intro f hf
    refine Run.Keeps.bind Run.Keeps.read fun c => ?_
    cases c with
    | some c => exact hf c
    | none => exact Run.Keeps.pure
  have answering : ∀ {x : Hosted Unit} {b' : Nat}, Run.Ends (Under b) x (Under b') →
      Run.Ends (Under b) (Run.answering x) (Under b') := fun hx =>
    Run.Leads.bind_mark (fun _ hw => hw.mark _) (Run.Leads.bind_attempt hx fun _ =>
      Run.Leads.bind_mark (fun _ hw => hw.mark _) Run.Keeps.pure)
  cases a with
  | newContainer =>
    refine Run.Keeps.bind ?_ fun _ => Run.Keeps.pure
    refine Run.Keeps.bind (Run.Leads.changeGet fun w hw => hw.addContainer rfl) fun c => ?_
    exact Run.Leads.changeGet fun w hw => hw.of_load_le fun _ _ => Nat.le_refl _
  | complete k v | callback k v =>
    refine Run.Keeps.bind (v.make_supplies (fun hs => Under.aside hs.toSameShared)
      fun x => Under.addContainer).keeps fun v => ?_
    exact onNumbered k (fun c => answering (h.complete c v hb)) fun _ => id
  -- a completion that waits is code of size one
  | chain k j =>
    refine onNumbered k (fun target => onNumbered j (fun source => ?_) fun _ hw => ?_) fun _ hw => ?_
    · exact answering (h.listen source (.complete target) rfl hb)
    · exact hw.mono (by omega)
    · exact hw.mono (by omega)
  | listen k r =>
    have hr : (Listener.routine r).foreign = 0 := congrArg Bool.toNat ha
    exact onNumbered k (fun c => answering (h.listen c (.routine r) hr hb)) fun _ hw =>
      hw.mono (by omega)
  | schedule r =>
    have hr : (Task.routine r).foreign = 0 := congrArg Bool.toNat ha
    refine Run.Leads.bind (Q := fun _ => Under b) Run.Keeps.read (fun c => ?_)
      fun _ _ hw => hw.mono (by omega)
    cases c with
    | some c => exact answering (h.schedule c (.routine r) hr hb)
    | none => exact Run.Leads.pure fun w hw => hw.mono (by omega)
  | scheduleByHandle r =>
    have hr : (Task.routine r).foreign = 0 := congrArg Bool.toNat ha
    refine Run.Leads.bind (Q := fun _ => Under b) Run.Keeps.read (fun c => ?_)
      fun _ _ hw => hw.mono (by omega)
    cases c with
    | some c => exact answering (h.scheduleByHandle c (.routine r) hr hb)
    | none => exact Run.Leads.pure fun w hw => hw.mono (by omega)
  -- the end of a chain of results may not exist
  | adapt k => exact absurd ha nofun
  | result k | isCompleted k => exact onNumbered k (fun c => Run.Keeps.read) fun _ => id
  | same k j => exact Run.Keeps.read
  | pending | isRunning => exact onContext fun c => Run.Keeps.read
  | clear =>
    refine onContext fun c => Run.Keeps.bind Run.Keeps.read fun k => ?_
    exact Run.Keeps.bind (Run.Leads.change fun w hw =>
      hw.of_load_le fun _ _ => w.load_clearQueue_le c) fun _ => Run.Keeps.pure
  | upgrade =>
    refine Run.Keeps.bind Run.Keeps.read fun c => ?_
    cases c with
    | some c => exact Run.Keeps.read
    | none => exact Run.Keeps.pure
  | drop =>
    refine onContext fun c => ?_
    exact Run.Keeps.bind (Run.Leads.change fun w hw =>
      hw.of_load_le fun _ _ => Nat.le_of_eq (w.load_changeContext c fun _ => rfl)) fun _ =>
        Run.Keeps.pure

omit h in
theorem log (e : Event) : Run.Keeps (Under b) (fun _ => False) (Run.log e : Hosted Unit) :=
  Run.Leads.change fun w => Under.aside (w.note_quiet e).toSameShared

/-- **Actions of the host end** with fuel beyond the code that waits and their own. -/
theorem performAll (tag : Json) (actions : List Action) (ha : Action.anyAdapts actions = false)
    (hb : b + Action.sizeAll actions < n) :
    Run.Ends (Under b) (Routine.performAll m tag actions) (Under (b + Action.sizeAll actions)) := by
  induction actions generalizing b with
  | nil => exact Run.Keeps.pure
  | cons a rest ih =>
    obtain ⟨h₁, h₂⟩ := Bool.or_eq_false_iff.mp ha
    simp only [Action.sizeAll] at hb ⊢
    refine Run.Leads.bind (h.perform a h₁ (by omega)) (fun answer => ?_)
      fun _ _ hw => hw.mono (by omega)
    refine Run.Leads.bind (log _) (fun _ => ?_) fun _ _ hw => hw.mono (by omega)
    -- what the first action left behind is counted with the others from here on
    rw [← Nat.add_assoc]
    exact ih h₂ (by omega)

omit h in
theorem finish (fails : Option HostError) :
    Run.Keeps (Under b) (fun _ => False) (Routine.finish fails) := by
  cases fails with
  | some e => exact Run.Leads.bind_mark (fun _ hw => hw.mark _) Run.Keeps.fail
  | none => exact Run.Keeps.pure

theorem tell (l : Listener) (v : Value) (hf : l.foreign = 0) (hb : b + l.size < n + 1) :
    Run.Ends (Under b) (m.tell l v) (Under (b + l.size - 1)) := by
  cases l with
  | complete c =>
    simp only [Listener.size] at hb
    exact h.complete c v (by omega)
  | gather g slot => exact absurd hf nofun
  | deliver tag fails =>
    exact Run.Keeps.bind Run.Keeps.read fun _ => Run.Keeps.bind (log _) fun _ => finish fails
  | routine r =>
    obtain ⟨tag, actions, fails⟩ := r
    simp only [Listener.size, Routine.size] at hb
    have ha : Action.anyAdapts actions = false := by simpa [Listener.foreign, Routine.adapts] using hf
    -- the routine itself is gone, and what is left is less by one
    have hs : Run.Ends (Under b) (Routine.hear m v (.mk tag actions fails))
        (Under (b + Action.sizeAll actions)) := by
      refine Run.Leads.bind (Q := fun _ => Under b) Run.Keeps.read (fun _ => ?_)
        fun _ _ hw => hw.mono (by omega)
      refine Run.Leads.bind (log _) (fun _ => ?_) fun _ _ hw => hw.mono (by omega)
      exact Run.Leads.bind (h.performAll tag actions ha (by omega)) (fun _ => finish fails)
        fun _ _ => id
    exact hs.weaken fun _ _ hw => hw.mono (by simp only [Listener.size, Routine.size]; omega)

theorem runTask (t : Task) (hf : t.foreign = 0) (hb : b + t.size < n + 1) :
    Run.Ends (Under b) (m.runTask t) (Under (b + t.size - 1)) := by
  cases t with
  | routine r =>
    obtain ⟨tag, actions, fails⟩ := r
    simp only [Task.size, Routine.size] at hb
    have ha : Action.anyAdapts actions = false := by simpa [Task.foreign, Routine.adapts] using hf
    have hs : Run.Ends (Under b) (Routine.work m (.mk tag actions fails))
        (Under (b + Action.sizeAll actions)) := by
      refine Run.Leads.bind (log _) (fun _ => ?_) fun _ _ hw => hw.mono (by omega)
      refine Run.Leads.bind (h.performAll tag actions ha (by omega)) (fun _ => ?_) fun _ _ => id
      exact Run.Keeps.bind (log _) fun _ => finish fails
    exact hs.weaken fun _ _ hw => hw.mono (by simp only [Task.size, Routine.size]; omega)
  | _ => exact absurd hf nofun

theorem drainBy (c : Ref .context) (hb : b < n + 1) :
    Run.Ends (Under b) (Run.drainBy m.runTask m.drain c) (Under b) := by
  intro w hw
  rcases hd : w.dequeue c with ⟨_ | t, w₁⟩
  · rw [Run.drainBy_none hd, (World.dequeue_none hd).2]
    exact hw
  · obtain ⟨hf, hs, hw₁⟩ := hw.dequeue hd
    -- every task of the host has a size, so the queue gets shorter or the code less
    have ht : 0 < t.size := by
      cases t with
      | routine r => exact r.size_pos
      | _ => exact absurd hf nofun
    have ran := h.runTask t hf (b := b - t.size) (by omega)
    rw [show b - t.size + t.size - 1 = b - 1 by omega] at ran
    -- with the task out of the queue there is fuel for it and for the rest of the queue
    have rest : Run.Ends (Under (b - t.size)) (do
        let first ← Run.attempt (m.runTask t)
        Run.mark (.queue c (.finished t first))
        let rest ← Run.attempt (m.drain c)
        Run.ofExcept (firstError first rest) : Hosted Unit) (Under b) := by
      refine Run.Leads.bind_attempt ran fun first => ?_
      refine Run.Leads.bind_mark (R := Under (b - 1)) (fun w => Under.mark _) ?_
      refine Run.Leads.bind_attempt (h.drain (b - 1) c (by omega)) fun rest => ?_
      exact Run.Leads.ofExcept fun w hw => hw.mono (by omega)
    rw [Run.drainBy_first hd]
    exact rest w₁ hw₁

end Machine.Finishes

/-- **The machine of fuel `n` finishes everything below size `n`.** -/
theorem Machine.ofFuel_finishes (n : Nat) : (ofFuel n).Finishes n := by
  induction n with
  | zero => exact ⟨fun _ _ _ _ hb => absurd hb (Nat.not_lt_zero _), fun _ _ hb => absurd hb (Nat.not_lt_zero _)⟩
  | succ n ih => exact ⟨fun b l v => ih.tell l v, fun b c => ih.drainBy c⟩

end ScriptModules
