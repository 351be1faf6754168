import Mathlib.Algebra.GroupWithZero.Nat
import ScriptModules.Proofs.Steps

/-!
# What waits in a world

Listeners wait in containers that have no result, and tasks wait in queues. `World.load p q` adds
up what they weigh, `p` for listeners and `q` for tasks. The lemmas say how each step changes the
load: only listening and scheduling add to it, and what is taken out in order to run is no longer
counted. With weights that pick out one kind of listener a load counts; with sizes of the host's
code it bounds how long that can run.

`World.held` adds what the listeners in hand weigh. No step lets it grow but one that makes a new
listener, so it counts the one-shot continuations of one kind that there still are.
-/

namespace ScriptModules

/-! ### Sums over tables -/

namespace Table

variable {k : Kind} {α : Type}

/-- The sum of what the things in a table weigh. -/
def sum (t : Table k α) (f : α → Nat) : Nat := (t.rows.toList.map f).sum

theorem sum_add (t : Table k α) (a : α) (f : α → Nat) : (t.add a).sum f = t.sum f + f a := by
  simp [sum, add]

theorem sum_map_modify (l : List α) (f : α → Nat) (g : α → α) (i : Nat) (a : α)
    (h : l[i]? = some a) : ((l.modify i g).map f).sum + f a = (l.map f).sum + f (g a) := by
  -- down to the place `i`: what stands before it weighs the same on both sides
  induction l generalizing i with
  | nil => exact absurd h nofun
  | cons b rest ih =>
    cases i with
    | zero =>
      obtain rfl : b = a := by simpa using h
      simp only [List.modify_zero_cons, List.map_cons, List.sum_cons]
      omega
    | succ i =>
      have := ih i (by simpa using h)
      simp only [List.modify_succ_cons, List.map_cons, List.sum_cons]
      omega

/-- **A change of one thing** changes the sum by what that thing weighs before and after. -/
theorem sum_update {t : Table k α} {i : Ref k} {a : α} (h : t.get? i = some a) (f : α → Nat)
    (g : α → α) : (t.update i g).sum f + f a = t.sum f + f (g a) := by
  simp only [sum, update, Array.toList_modify]
  exact sum_map_modify _ f g i.row a (by simpa [get?] using h)

theorem update_of_get?_none {t : Table k α} {i : Ref k} (h : t.get? i = none) (g : α → α) :
    t.update i g = t := by
  obtain ⟨rows⟩ := t
  simp only [get?, Array.getElem?_eq_none_iff] at h
  simp only [update, mk.injEq]
  -- the place is not in the table, so no row is reached
  apply Array.ext_getElem?
  intro j
  rw [Array.getElem?_modify]
  split
  · next hj => rw [Array.getElem?_eq_none (by omega), Option.map_none]
  · rfl

/-- Only what stands in each row matters for a sum; rows without weight can be left out. -/
theorem sum_congr {t t' : Table k α} {f : α → Nat}
    (h : ∀ i, ((t'.get? i).map f).getD 0 = ((t.get? i).map f).getD 0) : t'.sum f = t.sum f := by
  -- the lists may differ in length: the rows that only one of them has weigh nothing
  have rows : ∀ l l' : List Nat, (∀ i : Nat, l'[i]?.getD 0 = l[i]?.getD 0) → l'.sum = l.sum := by
    intro l
    induction l with
    | nil =>
      intro l' hl
      induction l' with
      | nil => rfl
      | cons a rest ih =>
        have ha : a = 0 := by simpa using hl 0
        rw [List.sum_cons, ha, ih fun i => by simpa using hl (i + 1)]
        rfl
    | cons a rest ih =>
      intro l' hl
      cases l' with
      | nil =>
        have ha : 0 = a := by simpa using hl 0
        rw [List.sum_cons, ← ha, ← ih [] fun i => by simpa using hl (i + 1)]
        rfl
      | cons b rest' =>
        have hb : b = a := by simpa using hl 0
        rw [List.sum_cons, List.sum_cons, hb, ih rest' fun i => by simpa using hl (i + 1)]
  refine rows _ _ fun i => ?_
  have := h ⟨i⟩
  simpa [get?] using this

end Table

/-! ### The load of a world -/

namespace World

variable (p : Listener → Nat) (q : Task → Nat)

/-- **What the listeners and tasks that wait weigh together.** -/
def load (w : World) : Nat :=
  w.containers.sum (fun x => (x.waiting.map p).sum) + w.contexts.sum fun x => (x.queue.map q).sum

variable {p q} {w w' : World}

theorem load_mark (w : World) (m : Moment) : (w.mark m).load p q = w.load p q := rfl

theorem load_of_same (h : SameShared w w') : w'.load p q = w.load p q := by
  rw [load, load, h.containers, h.contexts]

theorem load_addContainer (w : World) (x : Container) :
    (w.addContainer x).load p q = w.load p q + (x.waiting.map p).sum := by
  simp only [load, addContainer, Table.sum_add]
  omega

theorem changeContext_of_none {c : Ref .context} (h : w.context? c = none)
    (f : Context → Context) : w.changeContext c f = w := by
  unfold changeContext
  rw [Table.update_of_get?_none h]

/-- A change of a context changes the load by what its queue weighs before and after. -/
theorem load_changeContext_of_some {c : Ref .context} {x : Context} (h : w.context? c = some x)
    (f : Context → Context) :
    (w.changeContext c f).load p q + (x.queue.map q).sum =
      w.load p q + ((f x).queue.map q).sum := by
  have hs := Table.sum_update (t := w.contexts) h (fun x => (x.queue.map q).sum) f
  -- the containers keep their weight; only one row of the contexts has changed
  have he : (w.changeContext c f).load p q = w.containers.sum (fun x => (x.waiting.map p).sum) +
      (w.contexts.update c f).sum fun x => (x.queue.map q).sum := rfl
  rw [he, load]
  omega

/-- A change of a context that leaves its queue alone. -/
theorem load_changeContext (w : World) (c : Ref .context) {f : Context → Context}
    (hf : ∀ x, (f x).queue = x.queue) : (w.changeContext c f).load p q = w.load p q := by
  cases hc : w.context? c with
  | none => rw [changeContext_of_none hc]
  | some x =>
    have := load_changeContext_of_some (p := p) (q := q) hc f
    rw [hf] at this
    omega

theorem load_enqueue_le (w : World) (c : Ref .context) (t : Task) :
    (w.enqueue c t).load p q ≤ w.load p q + q t := by
  rw [enqueue, load_mark]
  cases hc : w.context? c with
  -- a task for a context that does not exist is lost
  | none =>
    rw [changeContext_of_none hc]
    omega
  | some x =>
    have := load_changeContext_of_some (p := p) (q := q) hc
      fun x => { x with queue := x.queue ++ [t] }
    simp only [List.map_append, List.sum_append, List.map_cons, List.map_nil, List.sum_cons,
      List.sum_nil] at this
    omega

theorem load_dequeue {c : Ref .context} {t : Task} (h : w.dequeue c = (some t, w')) :
    w'.load p q + q t = w.load p q := by
  obtain ⟨x, rest, hx, hq, rfl⟩ := dequeue_some h
  have := load_changeContext_of_some (p := p) (q := q) hx fun x => { x with queue := rest }
  rw [load_mark]
  simp only [hq, List.map_cons, List.sum_cons] at this
  omega

theorem load_clearQueue_le (w : World) (c : Ref .context) :
    (w.clearQueue c).load p q ≤ w.load p q := by
  rw [clearQueue, load_mark]
  cases hc : w.context? c with
  | none => exact Nat.le_of_eq (by rw [changeContext_of_none hc])
  | some x =>
    have := load_changeContext_of_some (p := p) (q := q) hc fun x => { x with queue := [] }
    simp only [List.map_nil, List.sum_nil] at this
    omega

/-- A container is in the table, or is pending without listeners and cannot be changed. -/
theorem container_cases (w : World) (c : Ref .container) :
    (w.container c = .pending [] ∧ ∀ x, w.setContainer c x = w) ∨
      w.containers.get? c = some (w.container c) := by
  unfold container setContainer Table.set
  cases h : w.containers.get? c with
  | none =>
    refine .inl ⟨rfl, fun x => ?_⟩
    rw [Table.update_of_get?_none h]
  | some x => exact .inr rfl

theorem load_setContainer {c : Ref .container} (h : w.containers.get? c = some (w.container c))
    (x : Container) :
    (w.setContainer c x).load p q + ((w.container c).waiting.map p).sum =
      w.load p q + (x.waiting.map p).sum := by
  have hs := Table.sum_update h (fun x => (x.waiting.map p).sum) fun _ => x
  have he : (w.setContainer c x).load p q =
      (w.containers.update c fun _ => x).sum (fun x => (x.waiting.map p).sum) +
        w.contexts.sum fun x => (x.queue.map q).sum := rfl
  rw [he, load]
  omega

/-- Resolving a container takes its listeners out of the world. -/
theorem load_resolve {c : Ref .container} {ls : List Listener} (h : w.container c = .pending ls)
    (v : Value) : (w.resolve c v).load p q + (ls.map p).sum = w.load p q := by
  rw [resolve, load_mark]
  rcases w.container_cases c with ⟨he, hs⟩ | hc
  -- a container that is not in the table waits for nothing, and stays as it is
  · obtain rfl : ls = [] := by
      rw [he] at h
      exact (Container.pending.inj h).symm
    rw [hs]
    rfl
  · have := load_setContainer (p := p) (q := q) hc (.resolved v)
    rw [h] at this
    simpa [Container.waiting] using this

theorem load_await_le {c : Ref .container} {ls : List Listener} (h : w.container c = .pending ls)
    (l : Listener) : (w.await c ls l).load p q ≤ w.load p q + p l := by
  rw [await, load_mark]
  rcases w.container_cases c with ⟨_, hs⟩ | hc
  -- a listener for a container that is not in the table is lost
  · rw [hs]
    omega
  · have := load_setContainer (p := p) (q := q) hc (.pending (ls ++ [l]))
    rw [h] at this
    simp only [Container.waiting, List.map_append, List.sum_append, List.map_cons, List.map_nil,
      List.sum_cons, List.sum_nil] at this
    omega

/-! ### Changes that move nothing -/

/-- **Neither containers nor tasks have moved:** contexts and environments may have been made and
changed, but each queue is as it was. -/
structure Rearranged (w w' : World) : Prop where
  containers : w'.containers = w.containers
  gatherings : w'.gatherings = w.gatherings
  history : w'.history = w.history
  numbered : w'.host.containers = w.host.containers
  waiting : ∀ c, w'.waitingTasks c = w.waitingTasks c

theorem SameShared.rearranged (h : SameShared w w') : Rearranged w w' :=
  ⟨h.containers, h.gatherings, h.history, by rw [h.host],
    fun c => by rw [waitingTasks, waitingTasks, h.context?]⟩

/-- A change of a context that leaves its queue alone. -/
theorem rearranged_changeContext (w : World) (c : Ref .context) {f : Context → Context}
    (hf : ∀ x, (f x).queue = x.queue) : Rearranged w (w.changeContext c f) :=
  ⟨rfl, rfl, rfl, rfl, fun c' => w.waitingTasks_changeContext c c' hf⟩

theorem Rearranged.trans {w₁ : World} (h : Rearranged w w₁) (h' : Rearranged w₁ w') :
    Rearranged w w' :=
  ⟨h'.containers.trans h.containers, h'.gatherings.trans h.gatherings,
    h'.history.trans h.history, h'.numbered.trans h.numbered,
    fun c => (h'.waiting c).trans (h.waiting c)⟩

theorem rearranged_beginDrain (w : World) (c : Ref .context) : Rearranged w (w.beginDrain c) := by
  -- the two changes of `beginDrain`, one after the other
  have h₁ := w.rearranged_changeContext c (f := fun x => { x with running := true }) fun _ => rfl
  have h₂ := (w.setRunning c true).rearranged_changeContext c
    (f := fun x => { x with holders := x.holders + 1 }) fun _ => rfl
  exact h₁.trans h₂

theorem rearranged_endDrain (w : World) (c : Ref .context) : Rearranged w (w.endDrain c) := by
  have h₁ := w.rearranged_changeContext c (f := fun x => { x with running := false }) fun _ => rfl
  have h₂ := (w.setRunning c false).rearranged_changeContext c
    (f := fun x => { x with holders := x.holders - 1 }) fun _ => rfl
  exact h₁.trans h₂

theorem rearranged_dropContext (w : World) (c : Ref .context) :
    Rearranged w (w.dropContext c) := by
  have h := w.rearranged_changeContext c
    (f := fun x => { x with holders := x.holders - 1 }) fun _ => rfl
  exact ⟨h.containers, h.gatherings, h.history, h.numbered, h.waiting⟩

theorem load_rearranged (h : Rearranged w w') : w'.load p q = w.load p q := by
  -- a context may be made or change, but what its row weighs is read off its queue
  have weight : ∀ (w : World) (c : Ref .context),
      ((w.contexts.get? c).map fun x => (x.queue.map q).sum).getD 0 =
        ((w.waitingTasks c).map q).sum := by
    intro w c
    unfold waitingTasks context?
    cases w.contexts.get? c <;> rfl
  have hs : w'.contexts.sum (fun x => (x.queue.map q).sum) =
      w.contexts.sum fun x => (x.queue.map q).sum := by
    refine Table.sum_congr fun c => ?_
    rw [weight w', weight w, h.waiting c]
  rw [load, load, h.containers, hs]

/-! ### What is held -/

/-- **What the listeners in hand and all that wait weigh together,** in containers and in tasks. -/
def held (w : World) (p : Listener → Nat) (hand : List Listener) : Nat :=
  (hand.map p).sum + w.load p fun t => (t.carried.map p).sum

section

variable (p) (hand : List Listener)

theorem held_cons (l : Listener) (w : World) :
    w.held p (l :: hand) = p l + w.held p hand := by
  rw [held, held, List.map_cons, List.sum_cons, Nat.add_assoc]

theorem held_append (ls : List Listener) (w : World) :
    w.held p (ls ++ hand) = (ls.map p).sum + w.held p hand := by
  rw [held, held, List.map_append, List.sum_append, Nat.add_assoc]

theorem held_rearranged (h : Rearranged w w') : w'.held p hand = w.held p hand := by
  rw [held, held, load_rearranged h]

theorem held_addContainer {x : Container} (hx : x.waiting = []) (w : World) :
    (w.addContainer x).held p hand = w.held p hand := by
  rw [held, held, load_addContainer, hx]
  rfl

/-- A task is put into the queue with the listeners that it carries. -/
theorem held_enqueue_le (w : World) (c : Ref .context) (t : Task) :
    (w.enqueue c t).held p hand ≤ w.held p (t.carried ++ hand) := by
  -- for the load, a task weighs what the listeners that it carries weigh
  have := load_enqueue_le (p := p) (q := fun t => (t.carried.map p).sum) w c t
  rw [held_append, held, held]
  omega

theorem held_dequeue {c : Ref .context} {t : Task} (h : w.dequeue c = (some t, w')) :
    w'.held p (t.carried ++ hand) = w.held p hand := by
  have := load_dequeue (p := p) (q := fun t => (t.carried.map p).sum) h
  rw [held_append, held, held]
  omega

theorem held_clearQueue_le (w : World) (c : Ref .context) :
    (w.clearQueue c).held p hand ≤ w.held p hand :=
  Nat.add_le_add_left (load_clearQueue_le w c) _

/-- The listeners of a container are taken in hand. -/
theorem held_resolve {c : Ref .container} {ls : List Listener} (h : w.container c = .pending ls)
    (v : Value) : (w.resolve c v).held p (ls ++ hand) = w.held p hand := by
  have := load_resolve (p := p) (q := fun t => (t.carried.map p).sum) h v
  rw [held_append, held, held]
  omega

theorem held_await_le {c : Ref .container} {ls : List Listener} (h : w.container c = .pending ls)
    (l : Listener) : (w.await c ls l).held p hand ≤ w.held p (l :: hand) := by
  have := load_await_le (p := p) (q := fun t => (t.carried.map p).sum) h l
  rw [held_cons, held, held]
  omega

end

end World

end ScriptModules
