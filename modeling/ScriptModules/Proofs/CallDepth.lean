import ScriptModules.Proofs.Heaps
import ScriptModules.Proofs.Steps

/-!
# The depth of calls

Each script call counts on the heap of the function's scope for as long as it runs. Whatever a machine
does, the counts are afterwards what they were before, and on the way none of them rose above
`callLimit` (`Machine.calls_balanced`). A call that would raise one further is refused before anything
of it happens.

What a run may do to the counts is put down as an invariant, `Level`: they are the given ones, and
since the start none was higher than the limit, or than it had been before. A script call is the one
thing that leaves a level, and it comes back to it however its body ends (`level_evaluating`).
-/

namespace ScriptModules

/-- Since `start` no depth was raised above the limit, no heap was lost, and lazy cells were at most
read. -/
structure Held (start w : World) : Prop where
  heaps : start.heaps.size ≤ w.heaps.size
  peak : ∀ h, w.peak h ≤ max (start.peak h) callLimit
  cells : start.CellsSettle w

/-- **The level of calls:** they are nested as deep as `d` says. -/
structure Level (start : World) (d : Ref .heap → Nat) (w : World) : Prop extends Held start w where
  depth : w.depth = d

namespace Held

variable {start w w' : World}

theorem refl (w : World) : Held w w := ⟨Nat.le_refl _, fun _ => Nat.le_max_left _ _, .of_same rfl⟩

theorem trans (h : Held start w) (h' : Held w w') : Held start w' where
  heaps := Nat.le_trans h.heaps h'.heaps
  peak x := by
    have hfirst := h.peak x
    have hthen := h'.peak x
    omega
  cells := h.cells.trans h'.cells

theorem setDepth (w : World) (h : Ref .heap) {n : Nat} (hn : n ≤ callLimit) :
    Held w (w.setDepth h n) where
  heaps := Nat.le_of_eq (Table.size_update _ _ _).symm
  peak x := by
    have hset := w.peak_setDepth_le h n x
    omega
  cells := .of_same rfl

theorem inert (h : World.Inert w w') : Held w w' where
  heaps := Nat.le_of_eq (congrArg Table.size h.heaps).symm
  peak x := by
    rw [World.peak_of_same h.heaps]
    exact Nat.le_max_left _ _
  cells := h.cells

theorem inward (h : World.Inward w w') : Held w w' where
  heaps := Nat.le_of_eq h.heaps.symm
  peak x := by
    rw [h.peak]
    exact Nat.le_max_left _ _
  cells := h.cells

theorem addScope (w : World) (s : Scope) : Held w (w.addScope s) where
  heaps := Nat.le_of_eq (Table.size_update _ _ _).symm
  peak x := by
    rw [(w.heap_addScope s x).2]
    exact Nat.le_max_left _ _
  cells := .of_same rfl

theorem addHeap (w : World) : Held w w.addHeap where
  heaps := by
    rw [World.addHeap, Table.size_add]
    exact Nat.le_succ _
  peak x := by
    rw [World.peak, w.heap_addHeap]
    exact Nat.le_max_left _ _
  cells := .of_same rfl

theorem release (w : World) (h : Ref .heap) : Held w (w.release h) where
  heaps := Nat.le_of_eq (by rw [World.heaps_release, Table.size_update])
  peak x := by
    rw [(w.heap_release h x).2]
    exact Nat.le_max_left _ _
  cells := by
    obtain ⟨table, htable⟩ := w.release_eq h
    rw [htable]
    exact .of_same rfl

end Held

namespace Level

variable {start w w' : World} {d : Ref .heap → Nat}

theorem refl (w : World) : Level w w.depth w := ⟨.refl w, rfl⟩

/-- A change that leaves depths alone. -/
theorem step (h : Level start d w) (hheld : Held w w') (hd : ∀ x, w'.depth x = w.depth x) :
    Level start d w' :=
  ⟨h.toHeld.trans hheld, (funext hd).trans h.depth⟩

theorem inward (h : Level start d w) (hi : World.Inward w w') : Level start d w' :=
  h.step (.inward hi) hi.depth

theorem inert (h : Level start d w) (hi : World.Inert w w') : Level start d w' :=
  h.step (.inert hi) (World.depth_of_same hi.heaps)

theorem addScope (h : Level start d w) (s : Scope) : Level start d (w.addScope s) :=
  h.step (.addScope w s) fun x => (w.heap_addScope s x).1

/-- A call begins below the limit, one level up. -/
theorem enter (h : Level start d w) {r : Ref .heap} (hr : w.depth r < callLimit) :
    Level start (w.oneDeeper r).depth (w.oneDeeper r) :=
  ⟨h.toHeld.trans (.setDepth w r hr), rfl⟩

/-- **A call ends on the level on which it began.** -/
theorem leave {w₁ : World} {r : Ref .heap} (hr : w.depth r < callLimit)
    (h : Level start (w.oneDeeper r).depth w₁) : Level start w.depth (w₁.leaveCall r) where
  toHeld := by
    refine h.toHeld.trans (.setDepth w₁ r ?_)
    rw [h.depth, w.depth_oneDeeper]
    exact Nat.le_of_lt hr
  depth := by
    funext x
    by_cases hx : x = r
    · subst hx
      rw [w₁.depth_leaveCall, h.depth, w.depth_oneDeeper]
    · rw [World.leaveCall, w₁.depth_setDepth_of_ne hx, h.depth, World.oneDeeper,
        w.depth_setDepth_of_ne hx]

end Level

/-! ### Evaluation -/

section

variable {start : World} {d : Ref .heap → Nat}

theorem inward_level {ε α : Type} [Faults ε] {x : Run ε α} (hx : x.Within World.Inward) :
    Run.Keeps (Level start d) (Held start) x :=
  hx.leads (fun _ _ h hi => h.inward hi) fun _ h => h.toHeld.trans (.inert (.of_same rfl rfl rfl rfl))

theorem newRootScope_level (b : Bindings) (r : Ref .heap) :
    Run.Keeps (Level start d) (Held start) (Run.newRootScope b r : Script _) :=
  fun _ h => h.addScope _

theorem level_congruence (start : World) (d : Ref .heap → Nat) :
    Congruence fun x _ => Run.Keeps (Level start d) (Held start) x where
  quiet hx := inward_level (Run.inward_of_quiet hx)
  bind := Run.Keeps.bind
  noticing hx := hx.onFailure fun _ _ h => h.inert (.of_same rfl rfl rfl rfl)
  inward := inward_level

variable {call : CallSemantics}
  (hc : ∀ d f this arguments, Run.Keeps (Level start d) (Held start) (call f this arguments))

include hc

/-- **A script call comes back to its level,** however its body ends. -/
theorem Closure.invoke_level (c : Closure) (this : Value) (arguments : Array Value) :
    Run.Keeps (Level start d) (Held start) (c.invoke call this arguments) := by
  intro w hw
  unfold Closure.invoke Run.nested
  rw [Run.bind_of_done (Run.read_apply _ _)]
  generalize w.heapOf c.scope = r
  by_cases hr : callLimit ≤ w.depth r
  · have hfull : Run.enterCall r w = (.failed _, w) := if_pos hr
    rw [Run.bind_of_failed hfull]
    exact hw
  · have henter : Run.enterCall r w = (.done (), w.oneDeeper r) := if_neg hr
    rw [Run.bind_of_done henter]
    have hbody := @Closure.run_congr _ (level_congruence start (w.oneDeeper r).depth) call call
      (hc _) c this arguments
    obtain rfl := hw.depth
    exact Run.Leads.andAlways hbody (fun _ w₁ h => Level.leave (Nat.lt_of_not_le hr) h) _
      (hw.enter (Nat.lt_of_not_le hr))

theorem Program.evaluate_level (p : Program) (b : Bindings) :
    Run.Keeps (Level start d) (Held start) (p.evaluate call b) := by
  have hrun := fun s => @Program.run_congr _ (level_congruence start d) call call (hc d) p s
  unfold Program.evaluate
  split
  · exact Run.Keeps.bind (newRootScope_level b _) hrun
  · refine Run.Keeps.bind (Run.Leads.changeGet fun w h => h.step (.addHeap w) fun x => ?_) fun r => ?_
    · rw [World.depth, w.heap_addHeap, World.depth]
    · refine Run.Keeps.bind (newRootScope_level b r) fun s => ?_
      exact (hrun s).andAlways fun w h => h.step (.release w r) fun x => (w.heap_release r x).1

end

/-- Evaluation bears the level of calls. -/
theorem level_evaluating (start : World) :
    Evaluating (.plain (Level start) (Held start) fun _ => True) where
  closure hc _ _ _ c this arguments :=
    (c.invoke_level (fun d => hc d []) this arguments).strengthen fun _ => And.left
  evaluate hc _ _ p b := p.evaluate_level (fun d => hc d []) b

/-- **Machines keep the level of calls.** -/
theorem level_lawful (start : World) :
    Lawful (.plain (Level start) (Held start) fun _ => True) :=
  lawful_of_inert Level.toHeld (fun hi h => h.inert hi) (level_evaluating start)

/-! ### Balance -/

/-- The run from `w` leaves every depth as it was, if it comes to an end, and raised none above the
limit, or higher than it had been before. -/
def World.Balances (w : World) {ε α : Type} (x : Run ε α) : Prop :=
  ((x w).1 ≠ .exhausted → ∀ h, (x w).2.depth h = w.depth h) ∧
    ∀ h, (x w).2.peak h ≤ max (w.peak h) callLimit

theorem World.balances_of_keeps {w : World} {ε α : Type} {x : Run ε α}
    (hx : Run.Keeps (Level w w.depth) (Held w) x) : w.Balances x := by
  have hleads := hx w (.refl w)
  unfold Balances
  rcases hrun : x w with ⟨a | e | _, w'⟩
  · rw [hrun] at hleads
    exact ⟨fun _ => congrFun hleads.depth, hleads.peak⟩
  · rw [hrun] at hleads
    exact ⟨fun _ => congrFun hleads.depth, hleads.peak⟩
  · rw [hrun] at hleads
    exact ⟨fun h => absurd rfl h, hleads.peak⟩

/-- A call on a heap on which no more calls may be nested is refused, and nothing of it happens. -/
theorem Closure.invoke_refused {w : World} {c : Closure}
    (hfull : callLimit ≤ w.depth (w.heapOf c.scope)) (call : CallSemantics) (this : Value)
    (arguments : Array Value) : c.invoke call this arguments w =
      (.failed (.thrown "RangeError: Maximum call stack size exceeded"), w) := by
  have henter : Run.enterCall (w.heapOf c.scope) w =
      (.failed (.thrown "RangeError: Maximum call stack size exceeded"), w) := if_pos hfull
  unfold Closure.invoke Run.nested
  rw [Run.bind_of_done (Run.read_apply _ _), Run.bind_of_failed henter]

/-- **Calls are balanced and bounded.** After a program was evaluated or a function called, be it one
of a script or a built-in one, with a value or with an error, each heap is nested as deep as before, and
meanwhile none was nested deeper than the limit, unless it had been so already. A script call on a heap
that is at the limit fails with the range error. Nothing of it happens before: the world is the same,
whatever calls inside of it would do, and a machine remembers nothing but that it began and ended. -/
theorem Machine.calls_balanced (n : Nat) (w : World) :
    (∀ (p : Program) (b : Bindings), w.Balances (p.evaluate (ofFuel n).call b)) ∧
    (∀ f this arguments, w.Balances ((ofFuel n).call f this arguments)) ∧
    (∀ c : Closure, callLimit ≤ w.depth (w.heapOf c.scope) →
      (∀ call this arguments, c.invoke call this arguments w =
        (.failed (.thrown "RangeError: Maximum call stack size exceeded"), w)) ∧
      ∀ f, w.functions.get? f = some (.closure c) →
        ∀ this arguments, (ofFuel (n + 1)).call f this arguments w =
          (.failed (.thrown "RangeError: Maximum call stack size exceeded"),
            (w.mark (.call (.entered false))).mark (.call .left))) := by
  have hkeeps := ofFuel_keeps (level_lawful w) n
  refine ⟨fun p b => ?_, fun f this arguments => ?_, fun c hfull => ⟨?_, ?_⟩⟩
  · exact World.balances_of_keeps (p.evaluate_level (fun d => hkeeps.call d []) b)
  · exact World.balances_of_keeps (hkeeps.call w.depth [] f this arguments)
  · exact Closure.invoke_refused hfull
  · intro f hf this arguments
    have hread : (Run.read (·.functions.get? f) : Script _) w = (.done (some (.closure c)), w) :=
      congrArg (fun x => (Outcome.done x, w)) hf
    have hbody : Callable.invoke (ofFuel n) (.closure c) this arguments
        (w.mark (.call (.entered false))) =
        Run.ofExcept (.error (.thrown "RangeError: Maximum call stack size exceeded"))
          (w.mark (.call (.entered false))) :=
      Closure.invoke_refused (w := w.mark (.call (.entered false))) hfull _ this arguments
    rw [ofFuel_call_succ, invoke, Run.bind_of_done hread]
    exact Run.andAlways_of_eq hbody

/-- A world with one function, on a heap at the limit. -/
def World.full : World :=
  { World.empty with
    functions := ⟨#[.closure ⟨"f", [], .value .this, false, ⟨0⟩⟩]⟩
    scopes := ⟨#[.root {} ⟨0⟩]⟩
    heaps := ⟨#[{ scopes := [⟨0⟩], depth := callLimit }]⟩ }

/-- The function of that world cannot be called. -/
theorem World.full_refuses :
    callLimit ≤ World.full.depth (World.full.heapOf ⟨0⟩) ∧
    ((Machine.ofFuel 1).call ⟨0⟩ .undefined #[] World.full).1 =
      .failed (.thrown "RangeError: Maximum call stack size exceeded") := by
  refine ⟨Nat.le_refl _, ?_⟩
  have hcall := (((Machine.calls_balanced 0 World.full).2.2
    ⟨"f", [], .value .this, false, ⟨0⟩⟩ (Nat.le_refl _)).2 ⟨0⟩ rfl .undefined #[])
  exact congrArg Prod.fst hcall

end ScriptModules
