import ScriptModules.Proofs.Gathering

/-!
# Sessions

What the host of a machine can do, and the worlds that it can come to. The host makes and changes
what is its own (contexts, environments, functions, bindings, …), and it acts (`Deed`): it calls
functions, evaluates programs, runs modules, schedules tasks, and completes containers or listens to
them. It may do all this in any order, as long as it neither completes the container that a `use`
answered nor makes up results of a gathering (`World.grants`); the listeners that could are not its
own.

Every world of a session keeps the accounts of gatherings (`Session.accounted`).
-/

namespace ScriptModules

/-! ### What the host does -/

/-- Something that the host does. -/
inductive Deed where
  | call (f : Ref .function) (this : Value) (arguments : Array Value)
  | evaluate (p : Program) (b : Bindings)
  /-- Run a module; its result completes a new container. -/
  | runModule (r : Ref .environment) (c : Ref .context) (source : ModuleSource)
      (globals arguments : Bindings)
  | schedule (c : Ref .context) (t : Task)
  | complete (c : Ref .container) (v : Value)
  | listen (c : Ref .container) (l : Listener)
  | perform (a : Action)
  | make (b : Blueprint)

namespace Deed

/-- **Do it,** whatever comes of it. -/
def run (m : Machine) : Deed → Hosted Unit
  | call f this arguments => do let _ ← Run.attempt (m.call f this arguments)
  | evaluate p b => do let _ ← Run.attempt (p.evaluate m.call b)
  | runModule r c source globals arguments => do
    let _ ← Run.attempt (m.moduleResult r c source globals arguments)
  | schedule c t => do let _ ← Run.attempt (m.schedule c t)
  | complete c v => do let _ ← Run.attempt (m.complete c v)
  | listen c l => do let _ ← Run.attempt (m.listen c l)
  | perform a => do let _ ← Run.attempt (a.perform m)
  | make b => do let _ ← Run.attempt (b.make : Hosted Value)

/-- The listeners that it brings. -/
def brings : Deed → List Listener
  | schedule _ t => t.carried
  | complete c _ => [.complete c]
  | listen _ l => [l]
  | _ => []

variable {ι : Type} {V : Invariant ι}

/-- What is lawful is kept, and what the deed brings is used up. -/
theorem run_keeps (L : Lawful V) {m : Machine} (M : m.Keeps V) (i : ι) (hand : List Listener)
    (d : Deed) :
    Run.Leads (V.holds i (d.brings ++ hand)) (d.run m) (fun _ => V.holds i hand) V.lost := by
  -- the host looks at no error
  have done : ∀ {ε α : Type} {P : World → Prop} {x : Run ε α},
      Run.Leads P x (fun _ => V.holds i hand) V.lost →
      Run.Leads P (do let _ ← Run.attempt x : Hosted Unit) (fun _ => V.holds i hand) V.lost :=
    fun hx => Run.Leads.bind_attempt hx fun _ => Run.Keeps.pure
  cases d with
  | call f this arguments => exact done (M.call i hand f this arguments)
  | evaluate p b => exact done (L.evaluate M.call i hand p b)
  | runModule r c source globals arguments =>
    refine done ?_
    -- the new container comes in hand, and goes with the task
    refine Run.Leads.bind_changeGet (R := fun c => V.holds i (.complete c :: hand))
      (fun w => L.newPending) fun result => ?_
    exact Run.Leads.bind (L.schedule M i hand c
      (.module r c source globals arguments (.complete result))) (fun _ => Run.Keeps.pure)
      fun _ _ => id
  | schedule c t => exact done (L.schedule M i hand c t)
  | complete c v => exact done (L.complete M i hand c v)
  | listen c l => exact done (L.listen M i hand c l)
  | perform a => exact done (L.perform M a)
  | make b => exact done (L.make b)

end Deed

/-! ### What the host may do -/

/-- The host may bring a listener of its own, or one that completes a container that no `use`
answered. -/
def World.grants (w : World) : Listener → Prop
  | .deliver .. | .routine _ => True
  | .complete c => c.row < w.containers.size ∧
    ∀ g x, w.gatherings.get? g = some x → x.container ≠ c
  | .gather .. => False

/-- **The worlds of a session:** from the empty world the host makes and changes what is its own,
ends periods, and acts, one thing after the other; each time as long as it takes. -/
inductive Session : World → Prop where
  | start : Session .empty
  | arrange {w w' : World} : Session w → w.Rearranged w' → Session w'
  | clear {w : World} (c : Ref .context) : Session w → Session (w.clearQueue c)
  | act {w w' : World} (d : Deed) (n : Nat) : Session w → (∀ l ∈ d.brings, w.grants l) →
    d.run (.ofFuel n) w = (.done (), w') → Session w'

section

variable {i : Calling} {hand : List Listener} {w : World}

theorem Accounted.empty : Accounted [] [] World.empty where
  account _ _ hx := absurd hx nofun
  tokens _ _ _ := rfl
  unopened _ _ := ⟨rfl, nofun⟩
  distinct _ _ _ _ hx := absurd hx nofun
  numbered c hc := absurd hc (Array.not_mem_empty c)
  completes _ _ := rfl
  prompt := trivial

/-- What the host may bring does not disturb the accounts. -/
theorem Accounted.granted {l : Listener} (hl : w.grants l) (h : Accounted i hand w) :
    Accounted i (l :: hand) w := by
  cases l with
  | gather g k => exact hl.elim
  | routine r => exact h.routine r
  | deliver tag fails =>
    refine h.frame_hand (fun g k => ?_) fun c => ?_
    · rw [World.held_cons]
      exact Nat.le_of_eq (Nat.zero_add _)
    · rw [World.held_cons]
      exact Nat.le_of_eq (Nat.zero_add _)
  | complete c =>
    -- it completes a container that belongs to no gathering and has been made
    obtain ⟨hexist, hown⟩ := hl
    refine ⟨fun g x hx => ?_, fun g k hx => ?_, h.unopened, h.distinct, h.numbered,
      fun c' hc => ?_, h.prompt⟩
    · have ha := h.account g x hx
      refine ha.frame (fun k => ?_) ?_ ha.unnumbered (Nat.le_refl _) (fun _ => Iff.rfl) rfl rfl rfl
      · rw [World.held_cons]
        exact Nat.le_of_eq (Nat.zero_add _)
      · rw [World.held_cons, Listener.completes_of_ne (hown g x hx).symm]
        exact Nat.le_of_eq (Nat.zero_add _)
    · rw [World.held_cons]
      exact (Nat.zero_add _).trans (h.tokens g k hx)
    · have hne : c ≠ c' := by
        rintro rfl
        exact Nat.not_lt_of_le hc hexist
      rw [World.held_cons, Listener.completes_of_ne hne]
      exact (Nat.zero_add _).trans (h.completes c' hc)

theorem Accounted.granted_all {ls : List Listener} (hl : ∀ l ∈ ls, w.grants l)
    (h : Accounted i hand w) : Accounted i (ls ++ hand) w := by
  induction ls with
  | nil => exact h
  | cons l rest ih =>
    have hr := ih fun l' hm => hl l' (List.mem_cons_of_mem l hm)
    exact hr.granted (hl l List.mem_cons_self)

end

/-- What the host does keeps the accounts, and a run that is cut off has not broken them. -/
theorem Deed.run_accounted (n : Nat) (d : Deed) {w : World} (hd : ∀ l ∈ d.brings, w.grants l)
    (h : Accounted [] [] w) :
    ((d.run (.ofFuel n) w).1 ≠ .exhausted → Accounted [] [] (d.run (.ofFuel n) w).2) ∧
      ∃ i hand, Accounted i hand (d.run (.ofFuel n) w).2 := by
  -- what the deed brings is in hand at the beginning, and nothing is in the end
  have kept := d.run_keeps accounts_lawful (Machine.ofFuel_keeps accounts_lawful n) [] []
  have hw := kept w (h.granted_all hd)
  rcases hr : d.run (.ofFuel n) w with ⟨a | e | _, w'⟩
  · rw [hr] at hw
    exact ⟨fun _ => hw, [], [], hw⟩
  · rw [hr] at hw
    exact ⟨fun _ => hw, [], [], hw⟩
  · rw [hr] at hw
    exact ⟨fun he => absurd rfl he, hw⟩

/-- **In a session all accounts are kept.** -/
theorem Session.accounted {w : World} (h : Session w) : Accounted [] [] w := by
  induction h with
  | start => exact .empty
  | arrange _ hs ih => exact ih.rearranged hs
  | clear c _ ih => exact ih.clearQueue c
  | @act w w' d n _ hd hr ih =>
    have := (d.run_accounted n hd ih).1
    rw [hr] at this
    exact this nofun

end ScriptModules
