import Mathlib.Algebra.GroupWithZero.Nat
import ScriptModules.Proofs.Fuel

/-!
# How calls nest

A call of a function written in a script counts on a heap, and is refused beyond a limit. A call of
a list method that calls back is not counted. So a chain of calls that goes on through list methods
alone is cut off by nothing (`evaluation_without_end`), and such chains are the only way in which an
evaluation can fail to end (`Program.evaluate_ends_iff`).

What runs inside what is read off the history: `World.callStack` has one level for each call that is
under way and is not of such a method, and in each level the number of such methods that were called
in it. What is left of the limits, and how far list methods may still nest in the level at the top,
is a measure that every call lowers (`Nesting.fuel`); with more fuel than that, a run that does not
end has nested list methods further (`Machine.ofFuel_nests`).
-/

namespace ScriptModules

/-! ### The stack of calls -/

/-- The calls that are under way: for each that is not of a list method that calls back, how many
calls of such methods run in it, the innermost first. -/
structure CallStack where
  level : Nat
  below : List Nat

/-- The stack after something happened to it. -/
def CallMoment.onStack : CallMoment → CallStack → CallStack
  | .entered true, s => { s with level := s.level + 1 }
  | .entered false, s => ⟨0, s.level :: s.below⟩
  | .left, ⟨n + 1, below⟩ => ⟨n, below⟩
  | .left, ⟨0, n :: below⟩ => ⟨n, below⟩
  | .left, ⟨0, []⟩ => ⟨0, []⟩
  | _, s => s

/-- The stack after something happened. -/
def Moment.onStack : Moment → CallStack → CallStack
  | .call m, s => m.onStack s
  | _, s => s

/-- Whether the form of something that holds itself was asked for. -/
def Moment.isEndless : Moment → Bool
  | .call .endless => true
  | _ => false

/-- The stack of calls at the end of a history. -/
def callStackAfter (history : List Moment) : CallStack := history.foldr Moment.onStack ⟨0, []⟩

/-- The highest value of a measure of the stack in the course of a history. -/
def highestIn (f : CallStack → Nat) : List Moment → Nat
  | [] => 0
  | m :: past => max (f (callStackAfter (m :: past))) (highestIn f past)

namespace World

variable (w : World)

/-- The calls that are under way. -/
def callStack : CallStack := callStackAfter w.history

/-- **How far list methods that call back have nested,** without another call between them. -/
def deepest : Nat := highestIn (·.level) w.history

/-- **How far other calls have nested.** -/
def tallest : Nat := highestIn (·.below.length) w.history

/-- How often the form of something that holds itself was asked for. -/
def endlessAsks : Nat := w.history.countP Moment.isEndless

theorem length_below_le_tallest : w.callStack.below.length ≤ w.tallest := by
  unfold callStack tallest
  cases w.history with
  | nil => exact Nat.le_refl _
  | cons m past => exact Nat.le_max_left _ _

variable (m : Moment)

theorem callStack_mark : (w.mark m).callStack = m.onStack w.callStack := rfl

theorem deepest_mark : (w.mark m).deepest = max (m.onStack w.callStack).level w.deepest := rfl

theorem tallest_mark :
    (w.mark m).tallest = max (m.onStack w.callStack).below.length w.tallest := rfl

theorem endlessAsks_mark : (w.mark m).endlessAsks = w.endlessAsks + m.isEndless.toNat := by
  unfold endlessAsks mark
  rw [List.countP_cons]
  cases m.isEndless <;> rfl

end World

/-! ### What is left of the limits -/

/-- What is known of how calls are nested: the stack, how many calls count on each heap, and a bound
that list methods have reached. -/
structure Nesting where
  stack : CallStack
  depth : Ref .heap → Nat
  reached : Nat

/-- **How many calls can still be counted** on the first heaps. -/
def callsLeft (heaps : Nat) (depth : Ref .heap → Nat) : Nat :=
  ((List.range heaps).map fun i => callLimit - depth ⟨i⟩).sum

/-- One call more on a heap. -/
def enterOn (depth : Ref .heap → Nat) (h : Ref .heap) : Ref .heap → Nat :=
  fun x => if x = h then depth h + 1 else depth x

theorem callsLeft_le (heaps : Nat) (depth : Ref .heap → Nat) :
    callsLeft heaps depth ≤ callLimit * heaps := by
  unfold callsLeft
  induction heaps with
  | zero => exact Nat.zero_le _
  | succ n ih =>
    simp only [List.range_succ, List.map_append, List.sum_append, List.map_cons, List.map_nil,
      List.sum_cons, List.sum_nil, Nat.mul_succ]
    omega

/-- Entering a call below the limit leaves one call less. -/
theorem callsLeft_enterOn {heaps : Nat} {depth : Ref .heap → Nat} {h : Ref .heap}
    (hr : h.row < heaps) (hl : depth h < callLimit) :
    callsLeft heaps (enterOn depth h) + 1 = callsLeft heaps depth := by
  unfold callsLeft
  induction heaps with
  | zero => exact absurd hr (Nat.not_lt_zero _)
  | succ n ih =>
    simp only [List.range_succ, List.map_append, List.sum_append, List.map_cons, List.map_nil,
      List.sum_cons, List.sum_nil]
    by_cases hn : h.row = n
    · have hh : h = ⟨n⟩ := congrArg Ref.mk hn
      -- the heap is the last one, and the others are as they were
      have others : (List.range n).map (fun i => callLimit - enterOn depth h ⟨i⟩) =
          (List.range n).map fun i => callLimit - depth ⟨i⟩ := by
        refine List.map_congr_left fun i hi => ?_
        have hne : (⟨i⟩ : Ref .heap) ≠ h := by
          rintro rfl
          exact absurd hn (Nat.ne_of_lt (List.mem_range.mp hi))
        rw [enterOn, if_neg hne]
      rw [others, enterOn, if_pos hh.symm, ← hh]
      omega
    · have hne : (⟨n⟩ : Ref .heap) ≠ h := by
        rintro rfl
        exact hn rfl
      have := ih (by omega)
      rw [enterOn, if_neg hne]
      omega

namespace Nesting

variable (x : Nesting)

/-- The nesting in a call that has just begun. -/
def enter (revisits : Bool) : Nesting :=
  let stack := (CallMoment.entered revisits).onStack x.stack
  { x with stack := stack, reached := max x.reached stack.level }

/-- The nesting in a call that counts on a heap. -/
def count (h : Ref .heap) : Nesting := { x with depth := enterOn x.depth h }

/-- Fuel for the calls that may come, if list methods nest at most `bound` deep. -/
def fuel (bound heaps : Nat) : Nat :=
  callsLeft heaps x.depth * (bound + 2) + (bound - x.stack.level) + 1

/-- There is room for the calls that may come. -/
def FitsIn (heaps top : Nat) : Prop := x.stack.below.length + callsLeft heaps x.depth < top

end Nesting

/-! ### Worlds with a known nesting -/

section

variable (bound heaps asks top : Nat)

/-- **Calls are nested as `x` says,** and nothing that holds itself was asked for its form. -/
structure Nesting.In (x : Nesting) (w : World) : Prop where
  sound : w.Sound
  heaps : w.heaps.size = heaps
  stack : w.callStack = x.stack
  depth : ∀ h, w.depth h = x.depth h
  reached : x.reached ≤ w.deepest
  tallest : w.tallest ≤ top
  asks : w.endlessAsks = asks

/-- **A run has stopped without an end,** and if it had fuel, list methods have nested further than
the bound, or something that holds itself was asked for its form. -/
structure Nesting.Stopped (n : Nat) (x : Nesting) (w : World) : Prop where
  reached : x.reached ≤ w.deepest
  tallest : w.tallest ≤ top
  cause : x.fuel bound heaps ≤ n → bound < w.deepest ∨ asks < w.endlessAsks

end

namespace Nesting

variable {bound heaps asks top n : Nat} {x y : Nesting} {w w' : World}

namespace In

/-- What is not seen in heaps and calls. -/
theorem of_same (h : x.In heaps asks top w) (hs : w.Sound → w'.Sound)
    (hh : w'.heaps.size = w.heaps.size) (hd : ∀ r, w'.depth r = w.depth r)
    (hp : w'.history = w.history) : x.In heaps asks top w' where
  sound := hs h.sound
  heaps := hh.trans h.heaps
  stack := by rw [World.callStack, hp]; exact h.stack
  depth r := (hd r).trans (h.depth r)
  reached := by rw [World.deepest, hp]; exact h.reached
  tallest := by rw [World.tallest, hp]; exact h.tallest
  asks := by rw [World.endlessAsks, hp]; exact h.asks

theorem inward (h : x.In heaps asks top w) (hi : w.Inward w') : x.In heaps asks top w' :=
  h.of_same hi.sound hi.heaps hi.depth hi.history

theorem quiet (h : x.In heaps asks top w) (hq : w.Quiet w') : x.In heaps asks top w' :=
  h.inward hq.inward

/-- A change of the world that is shared with the host. -/
theorem shared (h : x.In heaps asks top w) (hh : w'.heaps = w.heaps) (hs : w'.scopes = w.scopes)
    (hf : w'.functions = w.functions) (hc : w'.cells = w.cells) (hp : w'.history = w.history)
    (ho : ∀ c, w.OnlyEnqueues c → w'.OnlyEnqueues c) : x.In heaps asks top w' :=
  h.of_same (fun s => s.of_same (by rw [hh]) hs hf hc ho) (by rw [hh])
    (fun r => by rw [World.depth, World.depth, hh]) hp

/-- A moment that takes the stack from `x` to `y`. -/
theorem mark {m : Moment} (h : x.In heaps asks top w) (hm : m.isEndless = false)
    (hy : m.onStack x.stack = y.stack) (hd : y.depth = x.depth)
    (hr : y.reached ≤ max (m.onStack x.stack).level x.reached)
    (ht : (m.onStack x.stack).below.length ≤ top) : y.In heaps asks top (w.mark m) where
  sound := h.sound.of_same rfl rfl rfl rfl fun _ => id
  heaps := h.heaps
  stack := by rw [World.callStack_mark, h.stack, hy]
  depth r := (h.depth r).trans (congrFun hd r).symm
  reached := by
    -- both maxima are over one more stack
    have := h.reached
    rw [World.deepest_mark, h.stack]
    omega
  tallest := by
    have := h.tallest
    rw [World.tallest_mark, h.stack]
    omega
  asks := by rw [World.endlessAsks_mark, hm, h.asks]; rfl

theorem length_below_le (h : x.In heaps asks top w) : x.stack.below.length ≤ top := by
  have := w.length_below_le_tallest
  rw [h.stack] at this
  exact Nat.le_trans this h.tallest

/-- A moment that is not one of calls. -/
theorem markOther {m : Moment} (h : x.In heaps asks top w) (hm : ∀ s, m.onStack s = s)
    (he : m.isEndless = false) : x.In heaps asks top (w.mark m) := by
  have hs := hm x.stack
  exact h.mark he hs rfl (by omega) (by rw [hs]; exact h.length_below_le)

theorem enter (h : x.In heaps asks top w) (hx : x.FitsIn heaps top) (revisits : Bool) :
    (x.enter revisits).In heaps asks top (w.mark (.call (.entered revisits))) := by
  unfold FitsIn at hx
  have hl : ((CallMoment.entered revisits).onStack x.stack).below.length ≤ top := by
    cases revisits with
    | true => exact h.length_below_le
    | false =>
      show x.stack.below.length + 1 ≤ top
      omega
  exact h.mark rfl rfl rfl (Nat.le_of_eq (Nat.max_comm _ _)) hl

theorem leave {revisits : Bool} (h : (x.enter revisits).In heaps asks top w) :
    x.In heaps asks top (w.mark (.call .left)) := by
  -- leaving undoes what entering did to the stack
  have hs : CallMoment.left.onStack (x.enter revisits).stack = x.stack := by
    cases revisits <;> rfl
  have hl : x.stack.below.length ≤ top := by
    have := h.length_below_le
    cases revisits with
    | true => exact this
    | false => exact Nat.le_of_succ_le this
  refine h.mark rfl hs rfl ?_ (by rw [Moment.onStack, hs]; exact hl)
  exact Nat.le_trans (Nat.le_max_left _ _) (Nat.le_max_right _ _)

/-- One call more counts on a heap. -/
theorem setDepth {h : Ref .heap} {k : Nat} (hw : x.In heaps asks top w) (hr : h.row < heaps)
    (hy : y.stack = x.stack) (hre : y.reached = x.reached)
    (hd : ∀ r, y.depth r = if r = h then k else x.depth r) :
    y.In heaps asks top (w.setDepth h k) where
  sound := hw.sound.of_same (Table.size_update _ _ _) rfl rfl rfl fun _ => id
  heaps := (Table.size_update _ _ _).trans hw.heaps
  stack := hw.stack.trans hy.symm
  depth r := by
    rw [World.depth_setDepth (by rw [hw.heaps]; exact hr), hd, hw.depth]
  reached := by rw [hre]; exact hw.reached
  tallest := hw.tallest
  asks := hw.asks

end In

/-! ### Runs that stop -/

/-- Asking for the form of what holds itself is a cause to stop. -/
theorem In.stopped (h : y.In heaps asks top w) (hr : x.reached ≤ y.reached) :
    x.Stopped bound heaps asks top n (w.mark (.call .endless)) where
  reached := Nat.le_trans hr (Nat.le_trans h.reached (Nat.le_max_right _ _))
  tallest := by
    have := h.tallest
    have := w.length_below_le_tallest
    rw [World.tallest_mark]
    exact Nat.max_le.mpr ⟨Nat.le_trans this h.tallest, h.tallest⟩
  cause _ := by
    rw [World.endlessAsks_mark, h.asks]
    exact .inr (Nat.lt_succ_self _)

/-- A call inside has stopped. -/
theorem Stopped.outer (h : y.Stopped bound heaps asks top n w) (hr : x.reached ≤ y.reached)
    (hf : x.fuel bound heaps ≤ n + 1 → y.fuel bound heaps ≤ n ∨ bound < y.reached) :
    x.Stopped bound heaps asks top (n + 1) w where
  reached := Nat.le_trans hr h.reached
  tallest := h.tallest
  cause hn := by
    rcases hf hn with hy | hy
    · exact h.cause hy
    · exact .inl (Nat.lt_of_lt_of_le hy h.reached)

theorem reached_le_enter (revisits : Bool) : x.reached ≤ (x.enter revisits).reached :=
  Nat.le_max_left _ _

/-- A list method in the same level takes one unit of fuel, or goes beyond the bound. -/
theorem fuel_enter (h : x.fuel bound heaps ≤ n + 1) :
    (x.enter true).fuel bound heaps ≤ n ∨ bound < (x.enter true).reached := by
  have hr : x.stack.level + 1 ≤ (x.enter true).reached := Nat.le_max_right _ _
  -- either the level is below the bound, and one unit is taken, or it goes beyond
  have hf : (x.enter true).fuel bound heaps =
      callsLeft heaps x.depth * (bound + 2) + (bound - (x.stack.level + 1)) + 1 := rfl
  unfold fuel at h
  omega

/-- A call that counts takes fuel for a whole level. -/
theorem fuel_count {r : Ref .heap} (hr : r.row < heaps) (hl : x.depth r < callLimit)
    (h : x.fuel bound heaps ≤ n + 1) : ((x.enter false).count r).fuel bound heaps ≤ n := by
  -- a new level begins at zero, with all of `bound` before it
  have hf : ((x.enter false).count r).fuel bound heaps =
      callsLeft heaps (enterOn x.depth r) * (bound + 2) + (bound - 0) + 1 := rfl
  have hc := callsLeft_enterOn hr hl
  unfold fuel at h
  rw [← hc, Nat.succ_mul] at h
  omega

theorem FitsIn.count {r : Ref .heap} (h : x.FitsIn heaps top) (hr : r.row < heaps)
    (hl : x.depth r < callLimit) : ((x.enter false).count r).FitsIn heaps top := by
  have hf : ((x.enter false).count r).stack.below.length = x.stack.below.length + 1 := rfl
  have hc := callsLeft_enterOn hr hl
  unfold FitsIn at h ⊢
  have hd : ((x.enter false).count r).depth = enterOn x.depth r := rfl
  rw [hf, hd]
  omega

section

variable {ε α : Type} [Faults ε]

theorem quiet_keeps {z : Run ε α} (hz : z.Within World.Quiet) (hr : x.reached ≤ y.reached) :
    Run.Keeps (y.In heaps asks top) (x.Stopped bound heaps asks top n) z :=
  hz.leads (fun _ _ h hq => h.quiet hq) fun _ h => h.stopped hr

theorem congruence (hr : x.reached ≤ y.reached) :
    Congruence fun z _ => Run.Keeps (y.In heaps asks top) (x.Stopped bound heaps asks top n) z where
  quiet hz := quiet_keeps hz hr
  bind := Run.Keeps.bind
  noticing hz := hz.onFailure fun _ _ h => h.markOther (fun _ => rfl) rfl
  inward hz := hz.leads (fun _ _ h hi => h.inward hi) fun _ h => h.stopped hr

end

/-- Entering a call counts it, below the limit. -/
theorem enterCall_leads {r : Ref .heap} (hr : r.row < heaps) {E : World → Prop} :
    Run.Leads (y.In heaps asks top) (Run.enterCall r) (fun
      | .ok _ => fun w => y.depth r < callLimit ∧ (y.count r).In heaps asks top w
      | .error _ => y.In heaps asks top) E := by
  intro w hw
  unfold Run.enterCall
  -- at the limit the call is refused, and nothing has changed
  by_cases hl : callLimit ≤ w.depth r
  · simp only [if_pos hl]
    exact hw
  · simp only [if_neg hl]
    rw [hw.depth] at hl ⊢
    refine ⟨Nat.lt_of_not_le hl, hw.setDepth hr rfl rfl fun q => ?_⟩
    rfl

/-- Leaving the call takes it away again. -/
theorem In.leaveCall {r : Ref .heap} (hr : r.row < heaps) (h : (y.count r).In heaps asks top w) :
    y.In heaps asks top (w.leaveCall r) := by
  have hd : w.depth r - 1 = y.depth r := by
    rw [h.depth]
    show enterOn y.depth r r - 1 = _
    rw [enterOn, if_pos rfl, Nat.add_sub_cancel]
  unfold World.leaveCall
  rw [hd]
  refine h.setDepth hr rfl rfl fun q => ?_
  by_cases hq : q = r
  · rw [if_pos hq, hq]
  · rw [if_neg hq]
    show _ = enterOn y.depth r q
    rw [enterOn, if_neg hq]

end Nesting

open Nesting

/-- **A machine under which calls nest as far as the limits allow:** a call ends with the nesting
that it began with, or it has stopped. -/
def Machine.Nests (bound heaps asks top n : Nat) (m : Machine) : Prop :=
  ∀ x : Nesting, x.FitsIn heaps top → ∀ f this arguments,
    Run.Leads (x.In heaps asks top) (m.call f this arguments) (fun _ => x.In heaps asks top)
      (x.Stopped bound heaps asks top n)

namespace Machine.Nests

variable {bound heaps asks top n : Nat} {m : Machine} (M : m.Nests bound heaps asks top n)
  {x : Nesting} (hx : x.FitsIn heaps top)

include M hx

/-- **A call of a function written in a script** counts on its heap, or is refused. -/
theorem closure (c : Closure) (this : Value) (arguments : Array Value) :
    Run.Keeps ((x.enter false).In heaps asks top) (x.Stopped bound heaps asks top (n + 1))
      (c.invoke m.call this arguments) := by
  have hr := x.reached_le_enter false
  refine Run.Leads.bind_read fun r => ?_
  refine Run.Leads.known (p := r.row < heaps) (fun w ⟨hw, he⟩ => ?_) fun hrow => ?_
  · rw [← he, ← hw.heaps]
    exact World.heapOf_lt hw.sound c.scope
  refine Run.Leads.bind ((enterCall_leads hrow).strengthen fun _ => And.left) (fun _ => ?_)
    fun _ _ => id
  refine Run.Leads.of_fact fun hl => ?_
  -- the body runs in a call that counts, and has the fuel that is left
  have inside : ∀ f this arguments,
      Run.Keeps (((x.enter false).count r).In heaps asks top)
        (x.Stopped bound heaps asks top (n + 1)) (m.call f this arguments) := fun f this arguments =>
    (M _ (hx.count hrow hl) f this arguments).consequence (fun _ => id) (fun _ _ => id) fun _ h =>
      h.outer hr fun hf => .inl (fuel_count hrow hl hf)
  have body := @Closure.run_congr _ (congruence (y := (x.enter false).count r) hr) m.call m.call inside
    c this arguments
  exact Run.Leads.andAlways body fun _ w hw => hw.leaveCall hrow

/-- **A call of a list method** goes on in the same level. -/
theorem listMethod (method : ListMethod) (l : Ref .list) (arguments : Array Value) :
    Run.Keeps ((x.enter (Callable.listMethod method l).revisits).In heaps asks top)
      (x.Stopped bound heaps asks top (n + 1)) (method.invoke m.call l arguments) := by
  -- calls from a list method are one further in the level that it is in
  have inside : ∀ f this arguments,
      Run.Keeps ((x.enter true).In heaps asks top) (x.Stopped bound heaps asks top (n + 1))
        (m.call f this arguments) := fun f this arguments =>
    (M (x.enter true) hx f this arguments).consequence (fun _ => id) (fun _ _ => id) fun _ h =>
      h.outer (x.reached_le_enter true) fuel_enter
  -- only `map` and `forEach` call back
  have revisiting := @ListMethod.invoke_congr _
    (congruence (y := x.enter true) (x.reached_le_enter true)).toSequential m.call m.call inside
  cases method with
  | map => exact revisiting .map l arguments
  | forEach => exact revisiting .forEach l arguments
  | push => exact quiet_keeps (ListMethod.pushAll_quiet l arguments) (x.reached_le_enter false)
  | join => exact quiet_keeps (ListMethod.joinItems_quiet l _) (x.reached_le_enter false)
  | indexOf => exact quiet_keeps (ListMethod.indexOfItem_quiet l _) (x.reached_le_enter false)

end Machine.Nests

/-! ### Functions that schedule -/

section

variable {bound heaps asks top n : Nat} {x y : Nesting} {m : Machine} {c : Ref .context}

/-- The context only takes tasks. -/
def Nesting.Calm (heaps asks top : Nat) (y : Nesting) (c : Ref .context) (w : World) : Prop :=
  y.In heaps asks top w ∧ w.OnlyEnqueues c

/-- The queue of the context is being drained. -/
def Nesting.Busy (heaps asks top : Nat) (y : Nesting) (c : Ref .context) (w : World) : Prop :=
  y.In heaps asks top w ∧ w.isRunning c = true

theorem Nesting.calm_keeps {ε α : Type} [Faults ε] {z : Run ε α} (hz : z.Within World.Quiet)
    (hr : x.reached ≤ y.reached) :
    Run.Keeps (y.Calm heaps asks top c) (x.Stopped bound heaps asks top n) z :=
  hz.leads (fun _ _ h hq => ⟨h.1.quiet hq, hq.onlyEnqueues h.2⟩) fun _ h => h.1.stopped hr

theorem Nesting.busy_keeps {ε α : Type} [Faults ε] {z : Run ε α} (hz : z.Within World.Quiet)
    (hr : x.reached ≤ y.reached) :
    Run.Keeps (y.Busy heaps asks top c) (x.Stopped bound heaps asks top n) z :=
  hz.leads (fun _ _ h hq => ⟨h.1.quiet hq, (hq.isRunning c).trans h.2⟩) fun _ h => h.1.stopped hr

theorem World.OnlyEnqueues.enqueue {w : World} {c' : Ref .context} (c : Ref .context) (t : Task)
    (h : w.OnlyEnqueues c') : (w.enqueue c t).OnlyEnqueues c' := by
  unfold World.OnlyEnqueues at h ⊢
  rwa [World.isAlive_enqueue, World.isRunning_enqueue]

/-- Scheduling on a queue that is being drained changes nothing about calls. -/
theorem Machine.schedule_busy (t : Task) {E : World → Prop} :
    Run.Keeps (y.Busy heaps asks top c) E (m.schedule c t) := by
  intro w ⟨hw, hr⟩
  rw [Machine.schedule, Run.schedule_running hr]
  have hs : y.In heaps asks top (w.changeContext c fun x => { x with queue := x.queue ++ [t] }) :=
    hw.shared rfl rfl rfl rfl rfl fun _ => World.OnlyEnqueues.enqueue c t
  exact ⟨hs.markOther (fun _ => rfl) rfl, (w.isRunning_enqueue c c t).trans hr⟩

theorem Machine.scheduleByHandle_calm (t : Task) {E : World → Prop} :
    Run.Leads (y.Calm heaps asks top c) (m.scheduleByHandle c t) (fun _ => y.In heaps asks top)
      E := by
  refine Run.Leads.bind_read fun alive => ?_
  cases alive with
  | true =>
    refine (Machine.schedule_busy t).consequence (fun w hw => ?_) (fun _ _ hw => hw.1) fun _ => id
    exact ⟨hw.1.1, hw.1.2 hw.2⟩
  | false => exact Run.Leads.fail fun w hw => hw.1.1

/-- A timer only puts a task into the queue. -/
theorem Timer.invoke_calm (t : Timer) (arguments : Array Value) {E : World → Prop} :
    Run.Leads (y.Calm heaps asks top c) (t.invoke m c arguments) (fun _ => y.In heaps asks top)
      E := by
  unfold Timer.invoke
  split
  · refine Run.Leads.bind (Q := fun _ => y.In heaps asks top) ?_ (fun _ => Run.Keeps.pure)
      fun _ _ => id
    exact Run.Leads.mapError (Machine.scheduleByHandle_calm _) (fun _ _ => id) fun _ _ => id
  · exact Run.Leads.fail fun w hw => hw.1

namespace UseSite

variable (site : UseSite)

/-- A context that is alive and only takes tasks is being drained. -/
theorem liveContext_calm :
    Run.Leads (y.Calm heaps asks top site.context) site.liveContext (fun
      | .ok c => fun w => c = site.context ∧ y.Busy heaps asks top c w
      | .error _ => y.In heaps asks top) (x.Stopped bound heaps asks top n) := by
  refine Run.Leads.bind_read fun alive => ?_
  cases alive with
  | true => exact Run.Leads.pure fun w hw => ⟨rfl, hw.1.1, hw.1.2 hw.2⟩
  | false => exact Run.Leads.fail fun w hw => hw.1.1

theorem runAll_busy (context : Ref .context) (g : Ref .gathering) (sources : List ModuleSource)
    (slot : Nat) :
    Run.Keeps (y.Busy heaps asks top context) (x.Stopped bound heaps asks top n)
      (site.runAll m context g slot sources) := by
  induction sources generalizing slot with
  | nil => exact Run.Keeps.pure
  | cons source rest ih => exact Run.Keeps.bind (Machine.schedule_busy _) fun _ => ih (slot + 1)

variable (hr : x.reached ≤ y.reached)

include hr

theorem useCallback_calm (callback : Ref .function) :
    Run.Leads (y.Calm heaps asks top site.context) (site.useCallback m callback)
      (fun _ => y.In heaps asks top) (x.Stopped bound heaps asks top n) := by
  refine Run.Leads.bind_changeGet (R := fun _ => y.Calm heaps asks top site.context)
    (fun w hw => ?_) fun c => ?_
  · exact ⟨hw.1.shared rfl rfl rfl rfl rfl fun _ => id, hw.2⟩
  refine Run.Leads.bind (calm_keeps site.script_quiet hr) (fun script => ?_) fun _ _ => And.left
  refine Run.Leads.bind (site.liveContext_calm) (fun context => ?_) fun _ _ => id
  refine Run.Leads.of_fact fun hc => ?_
  exact Run.Leads.bind (Machine.schedule_busy _) (fun _ => Run.Leads.pure fun w => And.left)
    fun _ _ => And.left

theorem useModules_calm (dependencies : List String) (callback : Ref .function) :
    Run.Leads (y.Calm heaps asks top site.context) (site.useModules m dependencies callback)
      (fun _ => y.In heaps asks top) (x.Stopped bound heaps asks top n) := by
  refine Run.Leads.bind (calm_keeps site.liveEnvironment_quiet hr) (fun environment => ?_)
    fun _ _ => And.left
  refine Run.Leads.bind (site.liveContext_calm) (fun context => ?_) fun _ _ => id
  refine Run.Leads.of_fact fun hc => ?_
  refine Run.Leads.bind (busy_keeps (environment.resolver.lookupContext_quiet _) hr) (fun start => ?_)
    fun _ _ => And.left
  refine Run.Leads.bind (busy_keeps (environment.resolver.findAll_quiet _ _) hr) (fun sources => ?_)
    fun _ _ => And.left
  refine Run.Leads.bind (busy_keeps site.script_quiet hr) (fun script => ?_) fun _ _ => And.left
  refine Run.Leads.bind_changeGet (R := fun _ => y.Busy heaps asks top context)
    (fun w hw => ?_) fun p => ?_
  · have hs : y.In heaps asks top { w.addContainer (.pending []) with
        gatherings := (w.openGathering sources.length callback site.this script).gatherings } :=
      hw.1.shared rfl rfl rfl rfl rfl fun _ => id
    exact ⟨hs.markOther (fun _ => rfl) rfl, hw.2⟩
  · exact Run.Leads.bind (site.runAll_busy context p.1 sources 0)
      (fun _ => Run.Leads.pure fun w => And.left) fun _ _ => And.left

/-- `use` only makes things and puts tasks into the queue. -/
theorem invoke_calm (arguments : Array Value) :
    Run.Leads (y.Calm heaps asks top site.context) (site.invoke m arguments)
      (fun _ => y.In heaps asks top) (x.Stopped bound heaps asks top n) := by
  refine Run.Leads.bind (Q := fun _ => y.In heaps asks top) ?_ (fun _ => Run.Keeps.pure)
    fun _ _ => id
  refine Run.Leads.mapError (Q := fun _ => y.In heaps asks top) ?_ (fun _ _ => id) fun _ _ => id
  unfold UseSite.apply
  split
  · exact Run.Leads.fail fun w => And.left
  · exact Run.Leads.bind (calm_keeps (callbackOf_quiet _) hr) (fun f => site.useCallback_calm hr f)
      fun _ _ => And.left
  · refine Run.Leads.bind (calm_keeps (callbackOf_quiet _) hr) (fun f => ?_) fun _ _ => And.left
    refine Run.Leads.bind (calm_keeps (dependencyNames_quiet _) hr) (fun names => ?_)
      fun _ _ => And.left
    split
    · exact site.useCallback_calm hr f
    · exact site.useModules_calm hr _ f

end UseSite

end

/-! ### Machines -/

namespace Machine

variable {bound heaps asks top n : Nat} {m : Machine}

/-- Anything that can be called nests as the limits allow. -/
theorem Nests.callable (M : m.Nests bound heaps asks top n) {x : Nesting}
    (hx : x.FitsIn heaps top) (f : Callable) (r : Ref .function) (this : Value)
    (arguments : Array Value) :
    Run.Leads (fun w => (x.enter f.revisits).In heaps asks top w ∧ w.functions.get? r = some f)
      (f.invoke m this arguments) (fun _ => (x.enter f.revisits).In heaps asks top)
      (x.Stopped bound heaps asks top (n + 1)) := by
  have hr := x.reached_le_enter f.revisits
  cases f with
  | closure c => exact (M.closure hx c this arguments).strengthen fun w => And.left
  | listMethod method l => exact (M.listMethod hx method l arguments).strengthen fun w => And.left
  | textMethod method s =>
    exact (quiet_keeps (method.invoke_quiet s arguments) hr).strengthen fun w => And.left
  | console method script =>
    exact (quiet_keeps (method.invoke_quiet script arguments) hr).strengthen fun w => And.left
  -- in a sound world these functions belong to a context that only takes tasks
  | timer t context =>
    refine Run.Leads.onFailure (Q := fun _ => (x.enter false).In heaps asks top) ?_ (fun _ _ => id)
      fun _ _ h => h.markOther (fun _ => rfl) rfl
    exact (t.invoke_calm arguments).strengthen fun w hw => ⟨hw.1, hw.1.sound.timers r t context hw.2⟩
  | use site =>
    refine Run.Leads.onFailure (Q := fun _ => (x.enter false).In heaps asks top) ?_ (fun _ _ => id)
      fun _ _ h => h.markOther (fun _ => rfl) rfl
    exact (site.invoke_calm hr arguments).strengthen fun w hw => ⟨hw.1, hw.1.sound.uses r site hw.2⟩
  | host h =>
    refine Run.Leads.strengthen ?_ fun w => And.left
    exact (h.invoke_keeps (fun _ _ hq hw => hw.quiet hq) this arguments).onFailure fun _ _ h =>
      h.markOther (fun _ => rfl) rfl

theorem Nests.invoke (M : m.Nests bound heaps asks top n) {x : Nesting} (hx : x.FitsIn heaps top)
    (r : Ref .function) (this : Value) (arguments : Array Value) :
    Run.Leads (x.In heaps asks top) (m.invoke r this arguments) (fun _ => x.In heaps asks top)
      (x.Stopped bound heaps asks top (n + 1)) := by
  refine Run.Leads.bind_read fun found => ?_
  cases found with
  | none => exact Run.Leads.pure fun w hw => hw.1
  | some f =>
    refine Run.Leads.bind_mark
      (R := fun w => (x.enter f.revisits).In heaps asks top w ∧ w.functions.get? r = some f)
      (fun w hw => ⟨hw.1.enter hx f.revisits, hw.2⟩) ?_
    exact Run.Leads.andAlways (M.callable hx f r this arguments) fun _ w hw => hw.leave

/-- **With fuel for what the limits allow, only list methods nest without an end.** -/
theorem ofFuel_nests (n : Nat) : (ofFuel n).Nests bound heaps asks top n := by
  induction n with
  | zero =>
    -- a run that has no fuel needs no cause
    intro x hx f this arguments w hw
    exact ⟨hw.reached, hw.tallest, fun hf => absurd hf (Nat.not_succ_le_zero _)⟩
  | succ n ih => exact fun x hx f this arguments => ih.invoke hx f this arguments

end Machine

/-! ### Programs -/

/-- **The worlds in which a program can be evaluated:** the heap that the bindings name exists, and
functions that the program can reach do not call back into scripts. -/
def World.Hosts (w : World) (b : Bindings) : Prop :=
  match b.heap with
  | some h => w.Sound ∧ h.row < w.heaps.size
  | none => w.addHeap.Sound

/-- The nesting in a world, as far as it is known there. -/
def World.nesting (w : World) : Nesting := ⟨w.callStack, w.depth, 0⟩

theorem World.nesting_in {w : World} {top : Nat} (hs : w.Sound) (ht : w.tallest ≤ top) :
    w.nesting.In w.heaps.size w.endlessAsks top w :=
  ⟨hs, rfl, rfl, fun _ => rfl, Nat.zero_le _, ht, rfl⟩

/-- What is known of an evaluation from the world in which its root scope has been made. -/
theorem Program.run_nests (p : Program) (s : Ref .scope) {w : World} (hs : w.Sound)
    {bound top n : Nat} (hx : w.nesting.FitsIn w.heaps.size top) (ht : w.tallest ≤ top) :
    match p.run (Machine.ofFuel n).call s w with
    | (.exhausted, w') => w.nesting.Stopped bound w.heaps.size w.endlessAsks top n w'
    | (_, w') => w.nesting.In w.heaps.size w.endlessAsks top w' := by
  have hc := fun f this arguments =>
    @Machine.ofFuel_nests bound _ w.endlessAsks _ n w.nesting hx f this arguments
  have hr := @Program.run_congr _ (congruence (Nat.le_refl _)) (Machine.ofFuel n).call
    (Machine.ofFuel n).call hc p s
  have := hr w (World.nesting_in hs ht)
  rcases h : p.run (Machine.ofFuel n).call s w with ⟨_ | _ | _, w'⟩
  · rw [h] at this
    exact this
  · rw [h] at this
    exact this
  · rw [h] at this
    exact this

/-- An evaluation is a run of the program in its root scope, in a world in which nothing has
happened yet. -/
theorem Program.evaluate_starts {b : Bindings} {w : World} (p : Program) (hw : w.Hosts b) :
    ∃ s w₁, w₁.Sound ∧ w₁.history = w.history ∧ w₁.heaps.size ≤ w.heaps.size + 1 ∧ ∀ call,
      ((p.evaluate call b w).1 = .exhausted ↔ (p.run call s w₁).1 = .exhausted) ∧
      (p.evaluate call b w).2.history = (p.run call s w₁).2.history := by
  unfold World.Hosts at hw
  unfold Program.evaluate
  cases hb : b.heap with
  | some h =>
    simp only [hb] at hw
    have hq := w.addScope_inward (.root b h) fun _ => hw.2
    refine ⟨w.scopes.fresh, w.addScope (.root b h), hq.sound hw.1, hq.history, ?_, fun call => ?_⟩
    · rw [hq.heaps]
      exact Nat.le_succ _
    · exact ⟨Iff.rfl, rfl⟩
  | none =>
    simp only [hb] at hw
    have hsize : w.addHeap.heaps.size = w.heaps.size + 1 := Table.size_add _ _
    have hl : w.heaps.fresh.row < w.addHeap.heaps.size := by
      rw [hsize]
      exact Nat.lt_succ_self _
    have hq := w.addHeap.addScope_inward (.root b w.heaps.fresh) fun _ => hl
    refine ⟨w.scopes.fresh, w.addHeap.addScope (.root b w.heaps.fresh), hq.sound hw, hq.history, ?_,
      fun call => ?_⟩
    · exact Nat.le_of_eq (hq.heaps.trans hsize)
    -- releasing the heap at the end changes neither the outcome nor the history
    have released : ∀ z : Script Value, ∀ w' : World,
        ((Run.andAlways z (·.release w.heaps.fresh) w').1 = .exhausted ↔ (z w').1 = .exhausted) ∧
        (Run.andAlways z (·.release w.heaps.fresh) w').2.history = (z w').2.history := by
      intro z w'
      unfold Run.andAlways
      rcases z w' with ⟨_ | _ | _, w''⟩
      · exact ⟨⟨nofun, nofun⟩, (w''.release_shared _).history⟩
      · exact ⟨⟨nofun, nofun⟩, (w''.release_shared _).history⟩
      · exact ⟨Iff.rfl, rfl⟩
    exact released _ _

/-- Finitely many numbers have a bound. -/
theorem exists_bound (f : Nat → Nat) (n : Nat) : ∃ bound, ∀ i ≤ n, f i ≤ bound := by
  induction n with
  | zero =>
    refine ⟨f 0, fun i hi => ?_⟩
    obtain rfl := Nat.le_zero.mp hi
    exact Nat.le_refl _
  | succ n ih =>
    obtain ⟨bound, h⟩ := ih
    refine ⟨max bound (f (n + 1)), fun i hi => ?_⟩
    rcases Nat.le_succ_iff.mp hi with hi | rfl
    · exact Nat.le_trans (h i hi) (Nat.le_max_left _ _)
    · exact Nat.le_max_right _ _

/-- **When an evaluation ends.** Calls other than those of list methods that call back nest at most
as far as the limit on each heap allows, whatever the program does. If nothing that holds itself is
asked for its text, number or JSON, then the evaluation ends just when there is a bound on how far
list methods nest without another call between them; no limit provides it. -/
theorem Program.evaluate_ends_iff (p : Program) (b : Bindings) (w : World) (hw : w.Hosts b) :
    (∀ n, (p.evaluate (Machine.ofFuel n).call b w).2.tallest ≤
      w.tallest + w.callStack.below.length + callLimit * (w.heaps.size + 1) + 1) ∧
    ((∀ n, (p.evaluate (Machine.ofFuel n).call b w).2.endlessAsks = w.endlessAsks) →
      ((∃ n, (p.evaluate (Machine.ofFuel n).call b w).1 ≠ .exhausted) ↔
        ∃ bound, ∀ n, (p.evaluate (Machine.ofFuel n).call b w).2.deepest ≤ bound)) := by
  obtain ⟨s, w₁, hs, hh, hsize, he⟩ := p.evaluate_starts hw
  have hstack : w₁.callStack = w.callStack := by rw [World.callStack, hh, World.callStack]
  have htall : w₁.tallest = w.tallest := by rw [World.tallest, hh, World.tallest]
  have hasks : w₁.endlessAsks = w.endlessAsks := by rw [World.endlessAsks, hh, World.endlessAsks]
  have hleft := callsLeft_le w₁.heaps.size w₁.depth
  have hlimit : callLimit * w₁.heaps.size ≤ callLimit * (w.heaps.size + 1) :=
    Nat.mul_le_mul_left _ hsize
  -- with that much room, all calls that the heaps allow fit
  have hx : w₁.nesting.FitsIn w₁.heaps.size
      (w.tallest + w.callStack.below.length + callLimit * (w.heaps.size + 1) + 1) := by
    show w₁.callStack.below.length + callsLeft w₁.heaps.size w₁.depth < _
    rw [hstack]
    omega
  have hrun := fun bound n => @Program.run_nests p s w₁ hs bound _ n hx (by omega)
  refine ⟨fun n => ?_, fun ha => ⟨fun ⟨n, hn⟩ => ?_, fun ⟨bound, hb⟩ => ?_⟩⟩
  · have ht := hrun 0 n
    rw [World.tallest, (he _).2]
    rcases hr : p.run (Machine.ofFuel n).call s w₁ with ⟨_ | _ | _, w'⟩
    · rw [hr] at ht
      exact ht.tallest
    · rw [hr] at ht
      exact ht.tallest
    · rw [hr] at ht
      exact ht.tallest
  · -- with more fuel than enough the run is the same, so finitely many are to be bounded
    obtain ⟨bound, hb⟩ := exists_bound
      (fun k => (p.evaluate (Machine.ofFuel k).call b w).2.deepest) n
    refine ⟨bound, fun k => ?_⟩
    rcases Nat.le_total k n with hk | hk
    · exact hb k hk
    · have hbelow := p.evaluate_below (Machine.ofFuel_below hk).call b w hn
      rw [hbelow]
      exact hb n (Nat.le_refl _)
  -- with the fuel for that bound, a run without an end would go beyond it
  · refine ⟨w₁.nesting.fuel bound w₁.heaps.size, fun hex => ?_⟩
    have hst := hrun bound (w₁.nesting.fuel bound w₁.heaps.size)
    have hr := (he _).1.mp hex
    rcases hz : p.run (Machine.ofFuel (w₁.nesting.fuel bound w₁.heaps.size)).call s w₁ with ⟨o, w'⟩
    rw [hz] at hst hr
    obtain rfl : o = .exhausted := hr
    have hd := hb (w₁.nesting.fuel bound w₁.heaps.size)
    have hasks' := ha (w₁.nesting.fuel bound w₁.heaps.size)
    rw [World.deepest, (he _).2, hz] at hd
    rw [World.endlessAsks, (he _).2, hz] at hasks'
    rcases hst.cause (Nat.le_refl _) with h | h
    · exact absurd hd (Nat.not_le_of_lt h)
    · rw [hasks, ← hasks'] at h
      exact absurd rfl (Nat.ne_of_lt h)

/-! ### A program without an end -/

/-- Without a heap in the bindings a program runs on one of its own. -/
theorem Program.evaluate_own (p : Program) (call : CallSemantics) (w : World) :
    p.evaluate call {} w =
      Run.andAlways (p.run call w.scopes.fresh) (·.release w.heaps.fresh)
        (w.addHeap.addScope (.root {} w.heaps.fresh)) := rfl

/-- A list method whose list holds it calls itself without an end. -/
theorem mapSelf_exhausted (n : Nat) {f : Ref .function} {l : Ref .list} {w : World}
    (hf : w.functions.get? f = some (.listMethod .map l)) (hl : w.items l = #[.function f])
    (this : Value) {arguments : Array Value} (ha : arguments[0]? = some (.function f)) :
    ∃ w', (Machine.ofFuel n).call f this arguments w = (.exhausted, w') ∧
      w'.endlessAsks = w.endlessAsks := by
  induction n generalizing w this arguments with
  | zero => exact ⟨w, rfl, rfl⟩
  | succ n ih =>
    obtain ⟨w', hw, hasks⟩ := @ih (w.mark (.call (.entered true))) hf hl .undefined
      #[.function f, .number (Float.ofNat 0), .list l] rfl
    refine ⟨w', ?_, hasks.trans (by rw [World.endlessAsks_mark]; rfl)⟩
    -- the only item of the list is the method, which is called again with less fuel
    have hv : ListMethod.visit (Machine.ofFuel n).call (.function f) "map callback" l 0 #[]
        [.function f] (w.mark (.call (.entered true))) = (.exhausted, w') :=
      Run.bind_of_exhausted (Run.onFailure_exhausted hw)
    have hm : ListMethod.map.invoke (Machine.ofFuel n).call l arguments
        (w.mark (.call (.entered true))) = (.exhausted, w') := by
      have hl' : ((w.mark (.call (.entered true))).items l).toList = [.function f] :=
        congrArg Array.toList hl
      simp only [ListMethod.invoke, ha]
      rw [Run.bind_of_done (Run.read_apply _ _), hl']
      exact Run.bind_of_exhausted hv
    rw [Machine.ofFuel_call_succ]
    unfold Machine.invoke
    rw [Run.bind_of_done (Run.read_apply _ _), hf]
    exact Run.andAlways_exhausted hm

/-- A program that puts the `map` of a list into the list, and calls it with itself. -/
def selfMapping : Program := ⟨[
  .declare .var [.mk "x" (some (.list [])), .mk "m" (some (.member (.name "x") "map"))],
  .expression (.call (.member (.name "x") "push") [.name "m"]),
  .expression (.call (.name "m") [.name "m"])]⟩

/-- Whether compiling came to that program. -/
def isSelfMapping : Except ScriptError Program → Bool
  | .ok ⟨[.declare .var [.mk "x" (some (.list [])), .mk "m" (some (.member (.name "x") "map"))],
      .expression (.call (.member (.name "x") "push") [.name "m"]),
      .expression (.call (.name "m") [.name "m"])]⟩ => true
  | _ => false

theorem eq_of_isSelfMapping {r : Except ScriptError Program} (h : isSelfMapping r = true) :
    r = .ok selfMapping := by
  unfold isSelfMapping at h
  split at h
  · rfl
  · exact absurd h nofun

/-- A world with the root scope of a script. -/
def World.scripting : World := World.empty.addHeap.addScope (.root {} ⟨0⟩)

/-- The world in which the list holds its own `map`. -/
def World.selfMapping : World :=
  (Stmt.execAll (Machine.ofFuel 1).call ⟨0⟩ (ScriptModules.selfMapping.body.take 2) .scripting).2

/-- The program does not end. -/
theorem selfMapping_exhausted (n : Nat) :
    ∃ w', selfMapping.evaluate (Machine.ofFuel n).call {} World.empty = (.exhausted, w') ∧
      w'.endlessAsks = 0 := by
  cases n with
  | zero => exact ⟨_, rfl, rfl⟩
  | succ n =>
    obtain ⟨w', hw, hasks⟩ := @mapSelf_exhausted (n + 1) ⟨0⟩ ⟨0⟩ .selfMapping rfl rfl .undefined
      #[.function ⟨0⟩] rfl
    refine ⟨w', ?_, hasks⟩
    -- the last statement calls the method with itself
    have hlast : Expr.eval (Machine.ofFuel (n + 1)).call ⟨0⟩ (.call (.name "m") [.name "m"])
        World.selfMapping = (.exhausted, w') := Run.onFailure_exhausted hw
    have hbody : selfMapping.run (Machine.ofFuel (n + 1)).call ⟨0⟩ .scripting =
        Stmt.runAll (Machine.ofFuel (n + 1)).call ⟨0⟩ [.expression (.call (.name "m") [.name "m"])]
          World.selfMapping := rfl
    have hend := hbody.trans (Run.bind_of_exhausted hlast)
    rw [Program.evaluate_own]
    exact Run.andAlways_exhausted hend

theorem World.empty_hosts : World.empty.Hosts {} where
  heaps := Nat.one_pos
  scopes _ _ h := absurd h nofun
  timers _ _ _ h := absurd h nofun
  uses _ _ h := absurd h nofun
  cells _ _ _ _ h := absurd h nofun

/-- **Not every evaluation ends,** though nothing is bound and nothing that holds itself is asked for
its form. -/
theorem evaluation_without_end :
    ∃ p, Program.compile "loop.js" "var x = [], m = x.map; x.push(m); m(m);" = .ok p ∧
      World.empty.Hosts {} ∧
      (∀ n, (p.evaluate (Machine.ofFuel n).call {} World.empty).2.endlessAsks = 0) ∧
      ∀ n, (p.evaluate (Machine.ofFuel n).call {} World.empty).1 = .exhausted := by
  refine ⟨selfMapping, eq_of_isSelfMapping (by decide +kernel), World.empty_hosts, fun n => ?_,
    fun n => ?_⟩
  · obtain ⟨w', hw, hasks⟩ := selfMapping_exhausted n
    rw [hw]
    exact hasks
  · obtain ⟨w', hw, _⟩ := selfMapping_exhausted n
    rw [hw]

/-- The law at that program: its function calls stay within the limit, and its list methods nest
further than any bound. -/
theorem selfMapping_nests_without_bound :
    World.empty.Hosts {} ∧
      (∀ n, (selfMapping.evaluate (Machine.ofFuel n).call {} World.empty).2.tallest ≤ 65) ∧
      ¬ ∃ bound, ∀ n,
        (selfMapping.evaluate (Machine.ofFuel n).call {} World.empty).2.deepest ≤ bound := by
  have h := selfMapping.evaluate_ends_iff {} World.empty World.empty_hosts
  refine ⟨World.empty_hosts, h.1, fun hb => ?_⟩
  have hasks : ∀ n, (selfMapping.evaluate (Machine.ofFuel n).call {} World.empty).2.endlessAsks =
      World.empty.endlessAsks := fun n => by
    obtain ⟨w', hw, ha⟩ := selfMapping_exhausted n
    rw [hw]
    exact ha
  -- with a bound the evaluation would end
  obtain ⟨n, hn⟩ := (h.2 hasks).mpr hb
  obtain ⟨w', hw, _⟩ := selfMapping_exhausted n
  rw [hw] at hn
  exact hn rfl

end ScriptModules
