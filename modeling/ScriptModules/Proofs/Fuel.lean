import ScriptModules.Machine.Fuel
import ScriptModules.Proofs.Evaluator

/-!
# Fuel

More fuel changes nothing but runs that had too little: a run of the machine of some fuel that ends
ends in the same way, in the same world, on every machine with more (`Machine.ofFuel_below`). So a
statement about a run that ends does not depend on the fuel it was given, and `exhausted` means
that the fuel was too small.

`Run.Below x y` is the comparison: wherever `x` ends, `y` does the same. Everything that is written
for an arbitrary machine respects it.
-/

namespace ScriptModules

namespace Run

variable {ε ε' α β : Type}

/-- **Wherever `x` ends, `y` ends in the same way.** -/
def Below (x y : Run ε α) : Prop := ∀ w, (x w).1 ≠ .exhausted → y w = x w

namespace Below

variable {x y : Run ε α}

theorem refl (x : Run ε α) : Below x x := fun _ _ => rfl

theorem exhausted : Below (Run.exhausted : Run ε α) x := fun _ h => absurd rfl h

theorem bind {f g : α → Run ε β} (h : Below x y) (hf : ∀ a, Below (f a) (g a)) :
    Below (x >>= f) (y >>= g) := by
  intro w hw
  rw [bind_apply] at hw
  rw [bind_apply, bind_apply]
  have hx := h w
  rcases hr : x w with ⟨a | e | _, w'⟩
  -- `x` has a value, so `y` has it too, and both go on with it
  · rw [hr] at hx hw
    rw [hx nofun]
    exact hf a w' hw
  · rw [hr] at hx
    rw [hx nofun]
  · rw [hr] at hw
    exact absurd rfl hw

/-- A run that depends on another only by its outcome, and has none where that has none. -/
theorem of_outcome {γ : Type} {f : Run ε α → Run ε' γ} (hf : ∀ x y w, x w = y w → f x w = f y w)
    (he : ∀ x w w', x w = (.exhausted, w') → (f x w).1 = .exhausted) (h : Below x y) :
    Below (f x) (f y) := by
  intro w hw
  -- where `x` has no outcome, `f x` would have none either
  have hx : (x w).1 ≠ .exhausted := fun hx => hw (he x w _ (Prod.ext hx rfl))
  exact hf y x w (h w hx)

theorem attempt (h : Below x y) : Below (Run.attempt x : Run ε' _) (Run.attempt y) := by
  refine of_outcome (fun x y w hw => ?_) (fun x w w' hw => ?_) h
  · rw [Run.attempt, Run.attempt, hw]
  · rw [attempt_exhausted hw]

theorem mapError {g : ε → ε'} (h : Below x y) : Below (Run.mapError g x) (Run.mapError g y) := by
  refine of_outcome (fun x y w hw => ?_) (fun x w w' hw => ?_) h
  · rw [Run.mapError, Run.mapError, hw]
  · rw [Run.mapError, hw]

theorem andAlways {g : World → World} (h : Below x y) :
    Below (Run.andAlways x g) (Run.andAlways y g) := by
  refine of_outcome (f := fun x => Run.andAlways x g) (fun x y w hw => ?_) (fun x w w' hw => ?_) h
  · rw [Run.andAlways, Run.andAlways, hw]
  · rw [andAlways_exhausted hw]

theorem onFailure {g : ε → World → World} (h : Below x y) :
    Below (Run.onFailure g x) (Run.onFailure g y) := by
  refine of_outcome (f := fun x => Run.onFailure g x) (fun x y w hw => ?_) (fun x w w' hw => ?_) h
  · rw [Run.onFailure, Run.onFailure, hw]
  · rw [Run.onFailure, hw]

theorem inName {x y : Script α} {script : String} (h : Below x y) :
    Below (Run.inName script x) (Run.inName script y) :=
  .bind (.refl _) fun _ => .bind h.attempt fun _ => .refl _

end Below

/-- Evaluation inherits the comparison from calls. -/
theorem below_congruence : Congruence Run.Below where
  quiet _ := .refl _
  bind := .bind
  noticing := .onFailure
  inward _ := .refl _

/-! ### Containers and queues -/

variable {notify notify' : Listener → Value → Hosted Unit} {drain drain' : Ref .context → Hosted Unit}

theorem notifyAll_below (h : ∀ l v, Below (notify l v) (notify' l v)) (c : Ref .container)
    (v : Value) (listeners : List Listener) :
    Below (notifyAll notify c v listeners) (notifyAll notify' c v listeners) := by
  induction listeners with
  | nil => exact .refl _
  -- the same is remembered on both sides; only the telling differs
  | cons l rest ih =>
    exact .bind (.refl _) fun _ => .bind (h l v).attempt fun _ => .bind (.refl _) fun _ =>
      .bind ih fun _ => .refl _

theorem completeBy_below (h : ∀ l v, Below (notify l v) (notify' l v)) (c : Ref .container)
    (v : Value) : Below (completeBy notify c v) (completeBy notify' c v) := by
  refine .bind (.refl _) fun x => ?_
  split
  · exact .refl _
  · exact .bind (.refl _) fun _ => .bind (notifyAll_below h c v _) fun _ => .refl _

theorem addListener_below (h : ∀ l v, Below (notify l v) (notify' l v)) (c : Ref .container)
    (l : Listener) : Below (addListener notify c l) (addListener notify' c l) := by
  refine .bind (.refl _) fun x => ?_
  split
  · exact .refl _
  · exact .bind (.refl _) fun _ => .bind (h l _).attempt fun _ => .refl _

theorem schedule_below (h : ∀ c, Below (drain c) (drain' c)) (c : Ref .context) (t : Task) :
    Below (schedule drain c t) (schedule drain' c t) := by
  refine .bind (.refl _) fun _ => .bind (.refl _) fun running => ?_
  split
  · exact .refl _
  · exact .bind (.refl _) fun _ => (h c).andAlways

theorem drainBy_below {runTask runTask' : Task → Hosted Unit}
    (ht : ∀ t, Below (runTask t) (runTask' t)) (h : ∀ c, Below (drain c) (drain' c))
    (c : Ref .context) : Below (drainBy runTask drain c) (drainBy runTask' drain' c) := by
  refine .bind (.refl _) fun next => ?_
  -- both take the same task out of the queue
  cases next with
  | none => exact .refl _
  | some t =>
    exact .bind (ht t).attempt fun _ => .bind (.refl _) fun _ => .bind (h c).attempt fun _ =>
      .refl _

end Run

open Run (Below)

/-! ### Calls -/

section

variable {call call' : CallSemantics}
  (hc : ∀ f this arguments, Below (call f this arguments) (call' f this arguments))

include hc

theorem Closure.invoke_below (c : Closure) (this : Value) (arguments : Array Value) :
    Below (c.invoke call this arguments) (c.invoke call' this arguments) :=
  .bind (.refl _) fun _ => .bind (.refl _) fun _ =>
    (c.run_congr Run.below_congruence hc this arguments).andAlways

theorem Program.evaluate_below (p : Program) (b : Bindings) :
    Below (p.evaluate call b) (p.evaluate call' b) := by
  unfold Program.evaluate
  split
  · exact .bind (.refl _) fun s => p.run_congr Run.below_congruence hc s
  · exact .bind (.refl _) fun _ => .bind (.refl _) fun s =>
      (p.run_congr Run.below_congruence hc s).andAlways

theorem Engine.evaluate_below (e : Engine) (script text : String) (b : Bindings) :
    Below (e.evaluate call script text b) (e.evaluate call' script text b) := by
  have compiled : Below (do let p ← Run.ofExcept (Program.compile script text); p.evaluate call b)
      (do let p ← Run.ofExcept (Program.compile script text); p.evaluate call' b) :=
    .bind (.refl _) fun p => p.evaluate_below hc b
  unfold Engine.evaluate
  split
  · exact .bind (.refl _) fun _ => compiled
  · exact compiled

end

/-! ### Machines -/

namespace Machine

/-- One machine below another in each of its activities. -/
structure Below (m m' : Machine) : Prop where
  call : ∀ f this arguments, Run.Below (m.call f this arguments) (m'.call f this arguments)
  notify : ∀ l v, Run.Below (m.notify l v) (m'.notify l v)
  drain : ∀ c, Run.Below (m.drain c) (m'.drain c)

namespace Below

variable {m m' : Machine} (h : m.Below m')

include h

theorem complete (c : Ref .container) (v : Value) : Run.Below (m.complete c v) (m'.complete c v) :=
  Run.completeBy_below h.notify c v

theorem listen (c : Ref .container) (l : Listener) : Run.Below (m.listen c l) (m'.listen c l) :=
  Run.addListener_below h.notify c l

theorem schedule (c : Ref .context) (t : Task) : Run.Below (m.schedule c t) (m'.schedule c t) :=
  Run.schedule_below h.drain c t

theorem scheduleByHandle (c : Ref .context) (t : Task) :
    Run.Below (m.scheduleByHandle c t) (m'.scheduleByHandle c t) := by
  refine .bind (.refl _) fun alive => ?_
  split
  · exact h.schedule c t
  · exact .refl _

theorem callFor (script : String) (f : Ref .function) (this : Value) (arguments : Array Value) :
    Run.Below (m.callFor script f this arguments) (m'.callFor script f this arguments) :=
  (h.call f this arguments).inName

/-! ### `use` and timers -/

theorem useCallback (site : UseSite) (f : Ref .function) :
    Run.Below (site.useCallback m f) (site.useCallback m' f) :=
  .bind (.refl _) fun _ => .bind (.refl _) fun _ => .bind (.refl _) fun _ =>
    .bind (h.schedule _ _) fun _ => .refl _

theorem runAll (site : UseSite) (context : Ref .context) (g : Ref .gathering) (slot : Nat)
    (sources : List ModuleSource) :
    Run.Below (site.runAll m context g slot sources) (site.runAll m' context g slot sources) := by
  induction sources generalizing slot with
  | nil => exact .refl _
  | cons source rest ih => exact .bind (h.schedule _ _) fun _ => ih (slot + 1)

theorem useModules (site : UseSite) (dependencies : List String) (f : Ref .function) :
    Run.Below (site.useModules m dependencies f) (site.useModules m' dependencies f) :=
  .bind (.refl _) fun _ => .bind (.refl _) fun _ => .bind (.refl _) fun _ => .bind (.refl _) fun _ =>
    .bind (.refl _) fun _ => .bind (.refl _) fun _ => .bind (h.runAll site _ _ _ _) fun _ => .refl _

theorem apply (site : UseSite) (arguments : Array Value) :
    Run.Below (site.apply m arguments) (site.apply m' arguments) := by
  unfold UseSite.apply
  split
  · exact .refl _
  · exact .bind (.refl _) fun f => h.useCallback site f
  · refine .bind (.refl _) fun f => .bind (.refl _) fun names => ?_
    split
    · exact h.useCallback site f
    · exact h.useModules site _ f

theorem timerInvoke (t : Timer) (context : Ref .context) (arguments : Array Value) :
    Run.Below (t.invoke m context arguments) (t.invoke m' context arguments) := by
  unfold Timer.invoke
  split
  · exact .bind (h.scheduleByHandle _ _).mapError fun _ => .refl _
  · exact .refl _

/-- Anything that can be called. -/
theorem callable (f : Callable) (this : Value) (arguments : Array Value) :
    Run.Below (f.invoke m this arguments) (f.invoke m' this arguments) := by
  cases f with
  | closure c => exact c.invoke_below h.call this arguments
  | listMethod method l =>
    exact method.invoke_congr Run.below_congruence.toSequential h.call l arguments
  | timer t context => exact (h.timerInvoke t context arguments).onFailure
  | use site => exact Run.Below.onFailure (.bind (h.apply site arguments).mapError fun _ => .refl _)
  | textMethod | console | host => exact .refl _

theorem invoke (f : Ref .function) (this : Value) (arguments : Array Value) :
    Run.Below (m.invoke f this arguments) (m'.invoke f this arguments) := by
  refine .bind (.refl _) fun f => ?_
  split
  · exact .refl _
  -- the depth is counted on both sides alike
  · next f => exact .bind (.refl _) fun _ => (h.callable f this arguments).andAlways

/-! ### Listeners -/

theorem gather (g : Ref .gathering) (slot : Nat) (v : Value) :
    Run.Below (m.gather g slot v) (m'.gather g slot v) := by
  refine .bind (.refl _) fun _ => .bind (.refl _) fun x => ?_
  split
  · next x =>
    split
    · exact .bind (.refl _) fun _ => .bind (h.callFor _ _ _ _).attempt fun _ =>
        .bind (.refl _) fun _ => .bind (.refl _) fun _ => h.complete _ _
    · exact .refl _
  · exact .refl _

theorem perform (a : Action) : Run.Below (a.perform m) (a.perform m') := by
  have answering : ∀ {x y : Hosted Unit}, Run.Below x y →
      Run.Below (Run.answering x) (Run.answering y) := fun h =>
    .bind (.refl _) fun _ => .bind h.attempt fun _ => .refl _
  have onNumbered : ∀ i {f f' : Ref .container → Hosted Answer}, (∀ c, Run.Below (f c) (f' c)) →
      Run.Below (Run.onNumbered i f) (Run.onNumbered i f') := by
    intro i f f' hf
    refine .bind (.refl _) fun c => ?_
    split
    · exact hf _
    · exact .refl _
  -- of the actions only those that tell something use the machine
  cases a with
  | complete i v | callback i v =>
    exact .bind (.refl _) fun v => onNumbered i fun c => answering (h.complete c v)
  | chain i j =>
    exact onNumbered i fun target => onNumbered j fun source => answering (h.listen source _)
  | listen i r => exact onNumbered i fun c => answering (h.listen c _)
  | schedule r =>
    refine .bind (.refl _) fun c => ?_
    split
    · exact answering (h.schedule _ _)
    · exact .refl _
  | scheduleByHandle r =>
    refine .bind (.refl _) fun c => ?_
    split
    · exact answering (h.scheduleByHandle _ _)
    · exact .refl _
  | _ => exact .refl _

theorem performAll (tag : Json) (actions : List Action) :
    Run.Below (Routine.performAll m tag actions) (Routine.performAll m' tag actions) := by
  induction actions with
  | nil => exact .refl _
  | cons a rest ih => exact .bind (h.perform a) fun _ => .bind (.refl _) fun _ => ih

theorem hear (v : Value) (r : Routine) : Run.Below (r.hear m v) (r.hear m' v) := by
  obtain ⟨tag, actions, fails⟩ := r
  exact .bind (.refl _) fun _ => .bind (.refl _) fun _ => .bind (h.performAll tag actions) fun _ =>
    .refl _

theorem tell (l : Listener) (v : Value) : Run.Below (m.tell l v) (m'.tell l v) := by
  cases l with
  | complete c => exact h.complete c v
  | gather g slot => exact h.gather g slot v
  | deliver tag fails => exact .refl _
  | routine r => exact h.hear v r

/-! ### Tasks -/

theorem handOn (then_ : Listener) (r : Except HostError Value) :
    Run.Below (m.handOn then_ r) (m'.handOn then_ r) := by
  unfold Machine.handOn
  split
  · exact h.listen _ _
  · exact h.notify _ _
  · exact .refl _

theorem evaluateModule (r : Ref .environment) (context : Ref .context) (source : ModuleSource)
    (globals arguments : Bindings) (then_ : Listener) :
    Run.Below (m.evaluateModule r context source globals arguments then_)
      (m'.evaluateModule r context source globals arguments then_) := by
  refine .bind (.refl _) fun e => ?_
  split
  · exact h.handOn _ _
  -- only the evaluation itself makes calls; what is provided to it is made alike
  · next e =>
    refine .bind (.attempt ?_) fun r => h.handOn _ r
    exact .bind (.refl _) fun _ => .bind (.refl _) fun _ =>
      .bind (e.engine.evaluate_below h.call _ _ _).inName fun _ => .refl _

theorem runTask (t : Task) : Run.Below (m.runTask t) (m'.runTask t) := by
  cases t with
  | module e context source globals arguments then_ =>
    exact h.evaluateModule e context source globals arguments then_
  | useCallback f this script c => exact .bind (h.callFor _ _ _ _) fun _ => h.complete _ _
  | timer t f arguments => exact .bind (h.callFor _ _ _ _) fun _ => .refl _
  | routine r =>
    obtain ⟨tag, actions, fails⟩ := r
    exact .bind (.refl _) fun _ => .bind (h.performAll tag actions) fun _ => .refl _

end Below

theorem below_zero (m : Machine) : (ofFuel 0).Below m :=
  ⟨fun _ _ _ => .exhausted, fun _ _ => .exhausted, fun _ => .exhausted⟩

/-- A machine with one more unit of fuel respects the comparison. -/
theorem below_succ {n k : Nat} (h : (ofFuel n).Below (ofFuel k)) :
    (ofFuel (n + 1)).Below (ofFuel (k + 1)) where
  call := h.invoke
  notify := h.tell
  drain := Run.drainBy_below h.runTask h.drain

/-- **More fuel does the same where less is enough.** -/
theorem ofFuel_below {n k : Nat} (h : n ≤ k) : (ofFuel n).Below (ofFuel k) := by
  induction n generalizing k with
  | zero => exact below_zero _
  | succ n ih =>
    -- both machines have fuel left: one unit is used on each side
    obtain ⟨k, rfl⟩ : ∃ j, k = j + 1 := ⟨k - 1, by omega⟩
    exact below_succ (ih (by omega))

end Machine

end ScriptModules
