import ScriptModules.Proofs.ConductRuns
import ScriptModules.Proofs.Provision

/-!
# Upkeep

If the terms of a law agree, then what they admit is kept up: no operation makes a function, a task
or an environment that is not admitted (`Terms.Coherent.conduct`). So whatever a machine does keeps
them up, and with it a whole request for a module, from the opening of its environment to its end,
however it ends (`ModuleProvider.run_holds`).
-/

namespace ScriptModules

/-! ### Operations -/

/-- All that there is, is admitted, and what a world had at the beginning is still there. -/
def Terms.HoldsSince (T : Terms) (start w : World) : Prop := T.Holds w ∧ start.Retains w

/-- **A run that keeps up what is admitted,** and keeps what there is. -/
def Run.Upholds (T : Terms) {ε α : Type} (x : Run ε α) : Prop :=
  ∀ start, Run.Keeps (T.HoldsSince start) (T.HoldsSince start) x

namespace Run.Upholds

variable {T : Terms} {ε α β : Type} {x : Run ε α}

theorem reaches (h : x.Upholds T) {w : World} (hw : T.Holds w) : T.HoldsSince w (x w).2 :=
  Run.Leads.of_all (h w) ⟨hw, .refl w⟩

theorem holds (h : x.Upholds T) {w : World} (hw : T.Holds w) : T.Holds (x w).2 := (h.reaches hw).1

theorem bind {f : α → Run ε β} (hx : x.Upholds T)
    (hf : ∀ a, (∃ w w', T.Holds w ∧ x w = (.done a, w')) → (f a).Upholds T) :
    (x >>= f).Upholds T := fun start =>
  Run.Keeps.bind_value (hx start) fun a ⟨w, w', hw, hr⟩ => hf a ⟨w, w', hw.1, hr⟩ start

theorem of_inert (hx : x.Inert T) : x.Upholds T := fun _ =>
  Run.Leads.of_reached fun w hw => ⟨hx.holds w hw.1, hw.2.trans (hx.retains w)⟩

/-- Nothing is new that a law speaks of. -/
theorem of_calm (hx : ∀ w, Terms.Calm w (x w).2) : x.Upholds T := fun _ =>
  Run.Leads.of_reached fun w hw => ⟨hw.1.of_calm (hx w), hw.2.trans (.of_calm (hx w))⟩

end Run.Upholds

/-- **Terms that agree are kept up by every operation.** -/
theorem Terms.Coherent.conduct {T : Terms} (hT : T.Coherent) :
    Conduct T fun x => Run.Upholds T x where
  terms := hT
  inert := .of_inert
  bind := .bind
  attempt h _ := Run.Keeps.attempt (h _)
  mapError h _ := Run.Keeps.mapError (h _)
  andAlways hx hg _ := Run.Keeps.andAlways (hx _) fun w hw => hg _ w hw
  onFailure hx hg _ := Run.Keeps.onFailure (hx _) fun e w hw => hg e _ w hw
  heapOf _ _ := Run.Keeps.read
  thisOf _ _ := Run.Keeps.read
  newRootScope _ _ := .of_calm fun _ => .of_same rfl rfl rfl rfl
  newInnerScope _ _ := .of_calm fun _ => .of_same rfl rfl rfl rfl
  declare _ _ _ _ _ := .of_calm fun _ => .of_same rfl rfl rfl rfl
  -- looking a name up may realize a binding, and nothing else
  tryLookup s x _ := by
    refine fun start => Run.Leads.of_reached fun w hw => ?_
    unfold Run.tryLookup
    split
    · exact hw
    · split
      · exact Run.Leads.of_all (Run.Upholds.of_inert (.get? _ x) start) hw
      · exact hw
  assign s x v _ := by
    refine .of_calm fun w => ?_
    unfold Run.assign
    split
    · split
      · exact .refl w
      · exact .of_same rfl rfl rfl rfl
    · exact .of_same rfl rfl rfl rfl
  onOwnHeap b _ hf := by
    refine .bind (.of_calm fun _ => .of_same rfl rfl rfl rfl) fun h _ =>
      .bind (.of_calm fun _ => .of_same rfl rfl rfl rfl) fun s _ start => ?_
    exact Run.Keeps.andAlways (hf h s start) fun w hw =>
      ⟨hw.1.of_calm (.release w h), hw.2.trans (.of_calm (.release w h))⟩

/-! ### Environments that come and go -/

namespace Terms

variable {T : Terms} {w : World}

/-- What is admitted of an environment does not depend on where it is active and who holds it. -/
def Lasting (T : Terms) : Prop :=
  ∀ {e x active holders}, T.environments e x →
    T.environments e { x with active := active, holders := holders }

theorem Holds.changeEnvironment (h : T.Holds w) (e : Ref .environment)
    {f : Environment → Environment} (hf : ∀ x, T.environments e x → T.environments e (f x)) :
    T.Holds { w with environments := w.environments.update e f } where
  functions := h.functions
  waiting := h.waiting
  started := h.started
  environments r x hx := by
    rw [World.environment?, Table.get?_update] at hx
    by_cases hr : e = r
    · subst hr
      rw [if_pos rfl] at hx
      obtain ⟨y, hy, rfl⟩ := Option.map_eq_some_iff.1 hx
      exact hf y (h.environments e y hy)
    · rw [if_neg hr] at hx
      exact h.environments r x hx

/-- All that there is, is admitted, and there are so many environments. -/
def HoldsFor (T : Terms) (count : Nat) (w : World) : Prop :=
  T.Holds w ∧ w.environments.size = count

namespace HoldsFor

variable {count : Nat} (hT : T.Lasting) (e : Ref .environment)

theorem of_calm {w' : World} (h : T.HoldsFor count w) (hc : Calm w w') : T.HoldsFor count w' :=
  ⟨h.1.of_calm hc, (congrArg Table.size hc.environments).trans h.2⟩

theorem changeContext (h : T.HoldsFor count w) (c : Ref .context) {f : Context → Context}
    (hf : ∀ x, (f x).queue = x.queue) : T.HoldsFor count (w.changeContext c f) :=
  h.of_calm ((Calm.refl w).changeContext hf c)

include hT

theorem setActivity (h : T.HoldsFor count w) (a : Option Activity) :
    T.HoldsFor count (w.setActivity e a) :=
  ⟨h.1.changeEnvironment e fun _ => hT, (Table.size_update ..).trans h.2⟩

theorem keep (h : T.HoldsFor count w) : T.HoldsFor count (w.keep e) :=
  ⟨h.1.changeEnvironment e fun _ => hT, (Table.size_update ..).trans h.2⟩

theorem abandon (h : T.HoldsFor count w) : T.HoldsFor count (w.abandon e) :=
  ⟨h.1.changeEnvironment e fun _ => hT, (Table.size_update ..).trans h.2⟩

end HoldsFor

/-- A new environment and a new context, on which no task waits. -/
theorem Holds.entered (hT : T.Lasting) (h : T.Holds w) {x : Environment}
    (hx : T.environments w.environments.fresh x) :
    T.HoldsFor (w.environments.size + 1) (w.entered x) := by
  have hopened : T.HoldsFor (w.environments.size + 1) { w.addHeap with
      environments := w.environments.add x
      contexts := w.contexts.add { heap := w.heaps.fresh, holders := 0 } } := by
    refine ⟨⟨h.functions, fun c t ht => ?_, h.started, fun r y hy => ?_⟩, Table.size_add ..⟩
    -- the new context is empty, and the others are as they were
    · have hcontext : (w.contexts.add { heap := w.heaps.fresh, holders := 0 }).get? c =
          if c = w.contexts.fresh then some { heap := w.heaps.fresh, holders := 0 }
          else w.contexts.get? c := Table.get?_add ..
      rw [World.waitingTasks, World.context?, hcontext] at ht
      by_cases hc : c = w.contexts.fresh
      · rw [if_pos hc] at ht
        cases ht
      · rw [if_neg hc] at ht
        exact h.waiting c t ht
    · rw [World.environment?, Table.get?_add] at hy
      by_cases hr : r = w.environments.fresh
      · rw [if_pos hr] at hy
        rwa [hr, ← Option.some.inj hy]
      · rw [if_neg hr] at hy
        exact h.environments r y hy
  exact ((hopened.setActivity hT _ _).keep hT _).changeContext _ fun _ => rfl

end Terms

/-- Whoever leaves an environment keeps up what is admitted, also if it was not active. -/
theorem Guard.leave_keeps {T : Terms} (hT : T.Lasting) {ε : Type} (g : Guard) (count : Nat) :
    Run.Keeps (T.HoldsFor count) (T.HoldsFor count) (g.leave : Run ε Unit) := by
  have hrelease : Run.Keeps (T.HoldsFor count) (T.HoldsFor count)
      (Environment.release g.environment) := by
    refine Run.Keeps.bind Run.Keeps.read fun activity => ?_
    split
    · exact Run.Keeps.fail
    · split
      · exact Run.Leads.change fun w hw => hw.setActivity hT _ _
      · exact Run.Leads.change fun w hw =>
          ((hw.setActivity hT _ _).of_calm (Conduct.calm_clearQueue _ _)).of_calm (.release _ _)
  exact Run.Keeps.bind hrelease.attempt fun _ => Run.Leads.change fun w hw =>
    (hw.abandon hT _).changeContext _ fun _ => rfl

/-! ### Requests -/

namespace ModuleProvider

variable {T : Terms} {p : ModuleProvider} {engine : Engine} {identifier : String}
  {globals arguments : Bindings} {w : World}

/-- What runs in the environment of a request keeps up what is admitted, if the module may run that
is asked for. -/
theorem inside_upholds (hT : T.Coherent) {m : Machine} (hm : m.Conducts fun x => Run.Upholds T x)
    (hfirst : ∀ start source, (p.resolver.resolve start identifier).value = .ok source →
      T.modules w.environments.fresh w.contexts.fresh source globals) :
    (p.inside identifier globals arguments m w).Upholds T := by
  have C := hT.conduct
  refine C.seq (C.lookupContext _ _) fun start => C.bind (C.find _ start identifier) ?_
  -- a source that comes out of the lookup is what the name resolves to
  rintro source ⟨w₁, w₂, -, hsource⟩
  obtain ⟨w₃, hfind⟩ := p.resolver.find_eq start identifier w₁
  obtain ⟨hfound, -⟩ := Run.ofExcept_inj (r := .ok source) (hsource.symm.trans hfind)
  exact C.seq (C.seq (C.newContainer _) fun c =>
    C.seq (C.scheduleOn hm _ (hfirst start source hfound.symm)) fun _ => C.pure) fun c =>
      C.unwrap identifier _

/-- **A whole request keeps up what is admitted,** if its own environment and the module that is
asked for are; and it adds one environment to those that there are. -/
theorem run_holds (hT : T.Coherent) (hlasting : T.Lasting) (n : Nat) (hw : T.Holds w)
    (henvironment : T.environments w.environments.fresh (p.environment engine))
    (hfirst : ∀ start source, (p.resolver.resolve start identifier).value = .ok source →
      T.modules w.environments.fresh w.contexts.fresh source globals) :
    T.HoldsFor (w.environments.size + 1)
      (p.run (.ofFuel n) engine identifier globals arguments w).2 := by
  have hentered : T.HoldsFor (w.environments.size + 1) (w.entered (p.environment engine)) :=
    hw.entered hlasting henvironment
  have hinside : Run.Keeps (T.HoldsFor (w.environments.size + 1))
      (T.HoldsFor (w.environments.size + 1))
      (p.inside identifier globals arguments (.ofFuel n) w) := by
    refine Run.Leads.of_reached fun v hv => ?_
    obtain ⟨hholds, hretains⟩ :=
      (inside_upholds hT (Machine.ofFuel_conducts hT.conduct n) hfirst).reaches hv.1
    exact ⟨hholds, (congrArg Table.size hretains.environments).trans hv.2⟩
  rw [run_eq]
  refine Run.Leads.of_all (Run.Keeps.bind hinside.attempt fun r =>
    Run.Keeps.bind (Guard.leave_keeps hlasting _ _) fun _ =>
      Run.Keeps.bind (Run.Leads.change fun v hv => hv.abandon hlasting _) fun _ =>
        Run.Keeps.ofExcept) hentered

end ModuleProvider

end ScriptModules
