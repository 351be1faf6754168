import ScriptModules.Proofs.Chains
import ScriptModules.Proofs.Invariant

/-!
# What runs tell

A run that ends has added something to the history, and has failed or not. The law of a fault says how
the two go together: what was remembered on the way is one thing, and what the run fails with another.
`Run.Tells S x` says that they go together as `S` allows.

A fault may pass from code of scripts to the code around it and back, so there are two such laws, one
for each. `Narration S H` lists what they must bear: one clause for each thing that can be done with a
fault. `Machine.ofFuel_tells` is the induction over calls, listeners and queues, done once for all
narrations.
-/

namespace ScriptModules

set_option linter.unusedSectionVars false

/-! ### Moments -/

/-- The error that is reported of a queue, a container or a gathering. -/
def Moment.reported : Moment → Option HostError
  | .queue _ (.finished _ r) => Run.errorOf r
  | .container _ (.answered _ r) | .container _ (.settled r) | .container _ (.answeredLate _ r) =>
    Run.errorOf r
  | .gathering _ (.returned r) => Run.errorOf r
  | _ => none

/-- Whether it is calls to which something happened. -/
def Moment.ofCalls : Moment → Bool
  | .call _ => true
  | _ => false

/-- What is added to a history in two steps. -/
theorem added_append {history middle before ms ms' : List Moment}
    (h : middle = ms.reverse ++ before) (h' : history = ms'.reverse ++ middle) :
    history = (ms ++ ms').reverse ++ before := by
  rw [h', h, List.reverse_append, List.append_assoc]

/-- The moments that were added to a history are determined. -/
theorem added_unique {history before ms ms' : List Moment} (h : history = ms.reverse ++ before)
    (h' : history = ms'.reverse ++ before) : ms = ms' :=
  List.reverse_injective (List.append_cancel_right (h.symm.trans h'))

/-! ### Where the parts of a run end -/

namespace Run

variable {ε ε' α β : Type} {x : Run ε α} {w w' : World}

theorem ends_of_bind {f : α → Run ε β} {r : Except ε β} (h : (x >>= f) w = ofExcept r w') :
    (∃ e, r = .error e ∧ x w = (.failed e, w')) ∨
      ∃ a w₁, x w = (.done a, w₁) ∧ f a w₁ = ofExcept r w' := by
  rcases hx : x w with ⟨a | e | _, w₁⟩
  · rw [bind_of_done hx] at h
    exact .inr ⟨a, w₁, rfl, h⟩
  · rw [bind_of_failed hx] at h
    obtain ⟨rfl, rfl⟩ := ofExcept_inj (r := .error e) h
    exact .inl ⟨e, rfl, rfl⟩
  · rw [bind_of_exhausted hx] at h
    cases r <;> cases h

theorem ends_of_attempt {f : Except ε α → Run ε' β} {r : Except ε' β}
    (h : (attempt x >>= f) w = ofExcept r w') :
    ∃ q w₁, x w = ofExcept q w₁ ∧ f q w₁ = ofExcept r w' := by
  rcases hx : x w with ⟨a | e | _, w₁⟩
  · rw [bind_of_done (attempt_of_eq (r := .ok a) hx)] at h
    exact ⟨.ok a, w₁, rfl, h⟩
  · rw [bind_of_done (attempt_of_eq (r := .error e) hx)] at h
    exact ⟨.error e, w₁, rfl, h⟩
  · rw [bind_of_exhausted (attempt_exhausted hx)] at h
    cases r <;> cases h

theorem ends_of_andAlways {g : World → World} {r : Except ε α}
    (h : andAlways x g w = ofExcept r w') : ∃ w₁, x w = ofExcept r w₁ ∧ w' = g w₁ := by
  unfold andAlways at h
  rcases hx : x w with ⟨a | e | _, w₁⟩
  · rw [hx] at h
    obtain ⟨rfl, rfl⟩ := ofExcept_inj (r := .ok a) h
    exact ⟨w₁, rfl, rfl⟩
  · rw [hx] at h
    obtain ⟨rfl, rfl⟩ := ofExcept_inj (r := .error e) h
    exact ⟨w₁, rfl, rfl⟩
  · rw [hx] at h
    cases r <;> cases h

theorem ends_of_onFailure {g : ε → World → World} {r : Except ε α}
    (h : onFailure g x w = ofExcept r w') :
    (∃ a, r = .ok a ∧ x w = (.done a, w')) ∨
      ∃ e w₁, r = .error e ∧ x w = (.failed e, w₁) ∧ w' = g e w₁ := by
  unfold onFailure at h
  rcases hx : x w with ⟨a | e | _, w₁⟩
  · rw [hx] at h
    obtain ⟨rfl, rfl⟩ := ofExcept_inj (r := .ok a) h
    exact .inl ⟨a, rfl, rfl⟩
  · rw [hx] at h
    obtain ⟨rfl, rfl⟩ := ofExcept_inj (r := .error e) h
    exact .inr ⟨e, w₁, rfl, rfl, rfl⟩
  · rw [hx] at h
    cases r <;> cases h

theorem ends_of_mapError {g : ε → ε'} {r : Except ε' α} (h : mapError g x w = ofExcept r w') :
    ∃ q, x w = ofExcept q w' ∧ errorOf r = (errorOf q).map g := by
  unfold mapError at h
  rcases hx : x w with ⟨a | e | _, w₁⟩
  · rw [hx] at h
    obtain ⟨rfl, rfl⟩ := ofExcept_inj (r := .ok a) h
    exact ⟨.ok a, rfl, rfl⟩
  · rw [hx] at h
    obtain ⟨rfl, rfl⟩ := ofExcept_inj (r := .error (g e)) h
    exact ⟨.error e, rfl, rfl⟩
  · rw [hx] at h
    cases r <;> cases h

/-! ### Stories -/

/-- **What a run tells:** if it ends, then what it added to the history and the error that it ended
with go together. -/
def Tells (S : List Moment → Option ε → Prop) (x : Run ε α) : Prop :=
  ∀ w r w', x w = ofExcept r w' → ∃ ms, w'.history = ms.reverse ++ w.history ∧ S ms (errorOf r)

theorem Tells.mono {S S' : List Moment → Option ε → Prop} (hx : Tells S x)
    (h : ∀ ms o, S ms o → S' ms o) : Tells S' x := by
  intro w r w' hrun
  obtain ⟨ms, hms, hs⟩ := hx w r w' hrun
  exact ⟨ms, hms, h _ _ hs⟩

/-- A fault that is remembered on its way out. -/
theorem Tells.onFailure {S : List Moment → Option ε → Prop} {m : ε → Moment} (hx : Tells S x)
    (hm : ∀ ms e, S ms (some e) → S (ms ++ [m e]) (some e)) :
    Tells S (onFailure (fun e w => w.mark (m e)) x) := by
  intro w r w' h
  rcases ends_of_onFailure h with ⟨a, rfl, hx'⟩ | ⟨e, w₁, rfl, hx', rfl⟩
  · exact hx w (.ok a) w' hx'
  · obtain ⟨ms, hms, hs⟩ := hx w (.error e) w₁ hx'
    exact ⟨ms ++ [m e], added_append hms rfl, hm ms e hs⟩

/-- A run without an end tells nothing. -/
theorem tells_exhausted {S : List Moment → Option ε → Prop} :
    Tells S (exhausted : Run ε α) := by
  intro w r w' h
  cases r <;> cases h

end Run

/-- What stories of runs in sequence must bear. -/
structure Telling {ε : Type} [Faults ε] (S : List Moment → Option ε → Prop) : Prop where
  done : S [] none
  /-- A fault of the code's own comes out of nothing. -/
  own : ∀ {e}, Faults.own e → S [] (some e)
  /-- What comes next is told after what succeeded. -/
  seq : ∀ {ms ms' o}, S ms none → S ms' o → S (ms ++ ms') o

/-- **What becomes of a fault,** in code of scripts (`S`) and around it (`H`). -/
structure Narration (S : List Moment → Option ScriptError → Prop)
    (H : List Moment → Option HostError → Prop) : Prop where
  script : Telling S
  host : Telling H
  /-- A call does nothing to a fault in it. -/
  call : ∀ {ms o} (revisits : Bool), S ms o →
    S (.call (.entered revisits) :: (ms ++ [.call .left])) o
  noticed : ∀ {ms e}, S ms (some e) → S (ms ++ [.call (.failed e)]) (some e)
  /-- A function of the host fails with what the host gave it. -/
  thrown : ∀ {h : HostFunction} {e}, h.fails = some e → S [.call (.raised (.host h) e)] (some e)
  raised : ∀ {f ms e}, (∀ h, f ≠ .host h) → S ms (some e) → S (ms ++ [.call (.raised f e)]) (some e)
  /-- Scripts see an error of the host as it is. -/
  hosted : ∀ {ms o}, H ms o → S ms (o.map .host)
  /-- Code of the host fails as the host said. -/
  supplied : ∀ {e}, H [.call (.supplied e)] (some e)
  /-- Something is reported, and then something else is done; the first error counts. -/
  reports : ∀ {ms o m ms' o'}, H ms o → m.ofCalls = false → m.reported = o → H ms' o' →
    H (ms ++ m :: ms') (o.or o')
  passes : ∀ {ms o m}, H ms o → m.ofCalls = false → m.reported = none → H (ms ++ [m]) o
  /-- Code runs in the name of a script. -/
  inName : ∀ {ms o} (script : String), S ms o →
    H (.call (.begun script) :: (ms ++ [.call (.ended script o)])) (o.map (HostError.ofScript script))
  /-- The text of a script does not parse. -/
  unread : ∀ {script text : String},
    H [.call (.begun script), .call (.ended script (some (.badSyntax text)))]
      (some (.scriptEvaluation script (.badSyntax text)))
  /-- The host gets an answer, and nobody else. -/
  acting : ∀ {ms} (result : Except HostError Unit), H ms (Run.errorOf result) →
    H (.call .acting :: (ms ++ [.call (.answered result)])) none

/-! ### Telling in sequence -/

namespace Telling

variable {ε α β : Type} [Faults ε] {S : List Moment → Option ε → Prop} (T : Telling S)
  {x : Run ε α}

section

include T

theorem pure {a : α} : Run.Tells S (pure a : Run ε α) := by
  intro w r w' h
  obtain ⟨rfl, rfl⟩ := Run.ofExcept_inj (r := .ok a) h
  exact ⟨[], rfl, T.done⟩

theorem fail {e : ε} (he : Faults.own e) : Run.Tells S (Run.fail e : Run ε α) := by
  intro w r w' h
  obtain ⟨rfl, rfl⟩ := Run.ofExcept_inj (r := .error e) h
  exact ⟨[], rfl, T.own he⟩

/-- What calls nothing tells nothing, and its faults are its own. -/
theorem within (hx : x.Within World.SameShared) : Run.Tells S x := by
  intro w r w' h
  refine ⟨[], (hx.of_eq h).history, ?_⟩
  cases r with
  | ok a => exact T.done
  | error e => exact T.own (hx.own_of_failed h)

theorem quiet (hx : x.Within World.Quiet) : Run.Tells S x :=
  T.within (hx.mono fun _ _ hq => hq.toSameShared)

theorem aside (hx : x.Within World.Aside) : Run.Tells S x :=
  T.within (hx.mono fun _ _ hq => hq.toSameShared)

theorem read {g : World → α} : Run.Tells S (Run.read g : Run ε α) := T.within .read

theorem bind {f : α → Run ε β} (hx : Run.Tells S x) (hf : ∀ a, Run.Tells S (f a)) :
    Run.Tells S (x >>= f) := by
  intro w r w' h
  rcases Run.ends_of_bind h with ⟨e, rfl, hx'⟩ | ⟨a, w₁, hx', hf'⟩
  · exact hx w (.error e) w' hx'
  · obtain ⟨ms, hms, hs⟩ := hx w (.ok a) w₁ hx'
    obtain ⟨ms', hms', hs'⟩ := hf a w₁ r w' hf'
    exact ⟨ms ++ ms', added_append hms hms', T.seq hs hs'⟩

end

/-- A change of the world that is no moment, and what comes after it. -/
theorem bind_change {g : World → World} {f : Unit → Run ε β}
    (hg : ∀ w, (g w).history = w.history) (hf : Run.Tells S (f ())) :
    Run.Tells S (Run.change g >>= f) := by
  intro w r w' h
  obtain ⟨ms, hms, hs⟩ := hf (g w) r w' h
  exact ⟨ms, by rw [hms, hg], hs⟩

theorem andAlways {g : World → World} (hx : Run.Tells S x) (hg : ∀ w, (g w).history = w.history) :
    Run.Tells S (Run.andAlways x g) := by
  intro w r w' h
  obtain ⟨w₁, hx', rfl⟩ := Run.ends_of_andAlways h
  obtain ⟨ms, hms, hs⟩ := hx w r w₁ hx'
  exact ⟨ms, (hg w₁).trans hms, hs⟩

include T in
/-- A run that leaves the history alone and does not fail. -/
theorem supplies {E : World → Prop} (hx : ∀ h, Run.Supplies (·.history = h) E x) :
    Run.Tells S x := by
  intro w r w' h
  have hends := (hx w.history).of_eq rfl h
  cases r with
  | ok a => exact ⟨[], hends, T.done⟩
  | error e => exact hends.elim

end Telling

/-! ### Machines -/

/-- A text can only fail to compile by its syntax. -/
theorem Program.compile_error {script text : String} {e : ScriptError}
    (h : Program.compile script text = .error e) : ∃ t, e = .badSyntax t := by
  unfold Program.compile at h
  split at h
  · cases h
  · exact ⟨_, (Except.error.inj h).symm⟩

/-- The activities of a machine tell such stories. -/
structure Machine.Tells (S : List Moment → Option ScriptError → Prop)
    (H : List Moment → Option HostError → Prop) (m : Machine) : Prop where
  call : ∀ f this arguments, Run.Tells S (m.call f this arguments)
  notify : ∀ l v, Run.Tells H (m.notify l v)
  drain : ∀ c, Run.Tells H (m.drain c)

namespace Narration

variable {S : List Moment → Option ScriptError → Prop} {H : List Moment → Option HostError → Prop}
  (N : Narration S H)

include N

section

variable {α β : Type} {x : Hosted α}

/-- A moment that is not of calls and reports no error. -/
theorem moment {m : Moment} (hm : m.ofCalls = false) (hr : m.reported = none) : H [m] none :=
  N.passes N.host.done hm hr

theorem mark {m : Moment} (hm : m.ofCalls = false) (hr : m.reported = none) :
    Run.Tells H (Run.mark m : Hosted Unit) := by
  intro w r w' h
  obtain ⟨rfl, rfl⟩ := Run.ofExcept_inj (r := .ok ()) h
  exact ⟨[m], rfl, N.moment hm hr⟩

/-- A change of the world that is remembered. -/
theorem change {g : World → World} {m : World → Moment}
    (hg : ∀ w, (g w).history = m w :: w.history) (hm : ∀ w, (m w).ofCalls = false)
    (hr : ∀ w, (m w).reported = none) : Run.Tells H (Run.change g : Hosted Unit) := by
  intro w r w' h
  obtain ⟨rfl, rfl⟩ := Run.ofExcept_inj (r := .ok ()) h
  exact ⟨[m w], hg w, N.moment (hm w) (hr w)⟩

/-- Run `x` to its end, report how it ended, and go on. The error of `x`, if it has one, is the first;
what comes after it may do what it likes with a fault of its own. -/
theorem reporting {f : Except HostError α → Moment} {g : Except HostError α → Hosted β}
    (hx : Run.Tells H x) (hf : ∀ q, (f q).ofCalls = false ∧ (f q).reported = Run.errorOf q)
    (hg : ∀ q w r w', g q w = Run.ofExcept r w' → ∃ ms o, w'.history = ms.reverse ++ w.history ∧
      H ms o ∧ Run.errorOf r = (Run.errorOf q).or o) :
    Run.Tells H (do let q ← Run.attempt x; Run.mark (f q); g q) := by
  intro w r w' h
  obtain ⟨q, w₁, hq, h⟩ := Run.ends_of_attempt h
  obtain ⟨ms, hms, hs⟩ := hx w q w₁ hq
  obtain ⟨ms', o, hms', hs', hr⟩ := hg q (w₁.mark (f q)) r w' h
  refine ⟨ms ++ f q :: ms', ?_, hr ▸ N.reports hs (hf q).1 (hf q).2 hs'⟩
  rw [hms', World.mark, hms]
  simp

/-- Fail with the error that was reported, or succeed. -/
theorem ofExcept_ends {q r : Except HostError α} {w w' : World}
    (h : (Run.ofExcept q : Hosted α) w = Run.ofExcept r w') :
    ∃ ms o, w'.history = ms.reverse ++ w.history ∧ H ms o ∧
      Run.errorOf r = (Run.errorOf q).or o := by
  obtain ⟨rfl, rfl⟩ := Run.ofExcept_inj h
  exact ⟨[], none, rfl, N.host.done, Option.or_none.symm⟩

end

/-- Code that runs in the name of a script. -/
theorem named {α : Type} {x : Script α} {script : String}
    (hx : Run.Tells (fun ms o => H (.call (.begun script) :: (ms ++ [.call (.ended script o)]))
      (o.map (HostError.ofScript script))) x) : Run.Tells H (Run.inName script x) := by
  intro w r w' h
  obtain ⟨q, w₁, hq, h⟩ := Run.ends_of_attempt (x := x) (w := w.mark (.call (.begun script))) h
  obtain ⟨ms, hms, hs⟩ := hx _ q w₁ hq
  obtain ⟨rfl, rfl⟩ := Run.ofExcept_inj h
  refine ⟨.call (.begun script) :: (ms ++ [.call (.ended script (Run.errorOf q))]), ?_, ?_⟩
  · show _ :: w₁.history = _
    rw [hms, World.mark]
    simp
  · cases q with
    | ok a => exact hs
    | error e => exact hs

/-! ### Calls -/

theorem noticing {α : Type} {x : Script α} (hx : Run.Tells S x) : Run.Tells S (Run.noticing x) :=
  hx.onFailure fun _ _ => N.noticed

theorem raising {α : Type} {f : Callable} (hf : ∀ h, f ≠ .host h) {x : Script α}
    (hx : Run.Tells S x) : Run.Tells S (Run.raising f x) :=
  hx.onFailure fun _ _ => N.raised hf

theorem hostFunction (h : HostFunction) (this : Value) (arguments : Array Value) :
    Run.Tells S (Run.raising (.host h) (h.invoke this arguments)) := by
  intro w r w' hrun
  -- whatever it does is quiet, and its only fault is the one that the host gave it
  obtain ⟨q, w₁, hq, hquiet, hfails⟩ := h.invoke_ends this arguments w
  rcases Run.ends_of_onFailure hrun with ⟨a, rfl, hx⟩ | ⟨e, w₂, rfl, hx, rfl⟩
  · have hsame : Run.ofExcept q w₁ = Run.ofExcept (.ok a) w' := hq.symm.trans hx
    obtain ⟨-, rfl⟩ := Run.ofExcept_inj hsame
    exact ⟨[], hquiet.history, N.script.done⟩
  · have hsame : Run.ofExcept q w₁ = Run.ofExcept (.error e) w₂ := hq.symm.trans hx
    obtain ⟨rfl, rfl⟩ := Run.ofExcept_inj hsame
    exact ⟨[.call (.raised (.host h) e)], congrArg (_ :: ·) hquiet.history, N.thrown (hfails e rfl)⟩

/-- An error of the host inside of a script. -/
theorem seen {α : Type} {x : Hosted α} (hx : Run.Tells H x) :
    Run.Tells S (Run.mapError ScriptError.host x) := by
  intro w r w' h
  obtain ⟨q, hq, hr⟩ := Run.ends_of_mapError h
  obtain ⟨ms, hms, hs⟩ := hx w q w' hq
  exact ⟨ms, hms, hr ▸ N.hosted hs⟩

/-- Evaluation tells what calls tell. -/
theorem congruence : Congruence fun x _ => Run.Tells S x where
  quiet := N.script.quiet
  bind := N.script.bind
  noticing := N.noticing
  inward hx := N.script.within (hx.mono fun _ _ hi => hi.toSameShared)

variable {m : Machine} (M : m.Tells S H)

include M

theorem closure (c : Closure) (this : Value) (arguments : Array Value) :
    Run.Tells S (c.invoke m.call this arguments) := by
  refine N.script.bind N.script.read fun h => ?_
  refine N.script.bind (N.script.within (Run.enterCall_shared h)) fun _ => ?_
  have hrun := @Closure.run_congr _ N.congruence m.call m.call M.call c this arguments
  exact Telling.andAlways hrun fun w => (w.leaveCall_shared h).history

theorem evaluate (p : Program) (b : Bindings) : Run.Tells S (p.evaluate m.call b) := by
  have hrun := fun s => @Program.run_congr _ N.congruence m.call m.call M.call p s
  unfold Program.evaluate
  split
  · next h _ => exact N.script.bind (N.script.within (Run.newRootScope_shared b h)) hrun
  · refine N.script.bind (N.script.within Run.newHeap_shared) fun h => ?_
    refine N.script.bind (N.script.within (Run.newRootScope_shared b h)) fun s => ?_
    exact Telling.andAlways (hrun s) fun w => (w.release_shared h).history

theorem callFor (script : String) (f : Ref .function) (this : Value) (arguments : Array Value) :
    Run.Tells H (m.callFor script f this arguments) :=
  N.named ((M.call f this arguments).mono fun _ _ => N.inName script)

/-- The text of a script is evaluated, if it parses. -/
theorem engine (e : Engine) (script text : String) (b : Bindings) :
    Run.Tells (fun ms o => S ms o ∨ ms = [] ∧ ∃ t, o = some (.badSyntax t))
      (e.evaluate m.call script text b) := by
  have hbad := fun e => @Program.compile_error script text e
  unfold Engine.evaluate
  -- parsing must not be computed; all that is known of it is how it fails
  generalize Program.compile script text = compiled at hbad
  have hbody : Run.Tells (fun ms o => S ms o ∨ ms = [] ∧ ∃ t, o = some (.badSyntax t))
      (do let p ← Run.ofExcept compiled; p.evaluate m.call b : Script Value) := by
    cases compiled with
    | ok p => exact (N.evaluate M p b).mono fun _ _ => .inl
    | error e =>
      intro w r w' h
      obtain ⟨rfl, rfl⟩ := Run.ofExcept_inj (r := .error e) h
      obtain ⟨t, rfl⟩ := hbad e rfl
      exact ⟨[], rfl, .inr ⟨rfl, t, rfl⟩⟩
  split
  -- the log is no part of the history
  · exact fun w r w' h => hbody (w.note (.direct script)) r w' h
  · exact hbody

/-! ### Containers and queues -/

theorem notifyAll (c : Ref .container) (v : Value) (ls : List Listener) :
    ∀ w r w', Run.notifyAll m.notify c v ls w = Run.ofExcept r w' → ∃ result ms,
      r = .ok result ∧ w'.history = ms.reverse ++ w.history ∧ H ms (Run.errorOf result) := by
  induction ls with
  | nil =>
    intro w r w' h
    have hnil : Run.notifyAll m.notify c v [] w = Run.ofExcept (.ok (.ok ())) w := rfl
    obtain ⟨rfl, rfl⟩ := Run.ofExcept_inj (hnil.symm.trans h)
    exact ⟨.ok (), [], rfl, rfl, N.host.done⟩
  | cons l rest ih =>
    intro w r w' h
    -- the listener is told, what it answers is reported, and then come the others
    obtain ⟨q, w₁, hq, h⟩ := Run.ends_of_attempt (x := m.notify l v)
      (w := w.mark (.container c (.told l v))) h
    obtain ⟨ms, hms, hs⟩ := M.notify l v _ q w₁ hq
    rcases Run.ends_of_bind (x := Run.notifyAll m.notify c v rest)
      (w := w₁.mark (.container c (.answered l q))) h with ⟨e, rfl, hrest⟩ | ⟨others, w₂, hrest, h⟩
    · obtain ⟨result, ms', hr, -, -⟩ := ih _ (.error e) w' hrest
      cases hr
    · obtain ⟨result, ms', hr, hms', hs'⟩ := ih _ (.ok others) w₂ hrest
      cases hr
      obtain ⟨rfl, rfl⟩ := Run.ofExcept_inj (r := .ok (firstError q others)) h
      refine ⟨_, [.container c (.told l v)] ++ (ms ++ .container c (.answered l q) :: ms'), rfl, ?_,
        N.host.seq (N.moment rfl rfl) ?_⟩
      · rw [hms', World.mark, hms, World.mark]
        simp
      · have hboth := N.reports hs (m := .container c (.answered l q)) rfl rfl hs'
        cases q with
        | ok u => exact hboth
        | error e => exact hboth

theorem complete (c : Ref .container) (v : Value) : Run.Tells H (m.complete c v) := by
  refine N.host.bind N.host.read fun x => ?_
  split
  · exact N.host.fail trivial
  · next ls =>
    intro w r w' h
    rcases Run.ends_of_bind (x := Run.notifyAll m.notify c v ls) (w := w.resolve c v) h with
      ⟨e, rfl, hall⟩ | ⟨result, w₁, hall, h⟩
    · obtain ⟨result, ms, hr, -, -⟩ := N.notifyAll M c v ls _ (.error e) w' hall
      cases hr
    · obtain ⟨result', ms, hr, hms, hs⟩ := N.notifyAll M c v ls _ (.ok result) w₁ hall
      cases hr
      obtain ⟨rfl, rfl⟩ := Run.ofExcept_inj (r := result)
        (w := w₁.mark (.container c (.settled result))) h
      have hsettled := N.reports hs (m := .container c (.settled result)) rfl rfl N.host.done
      rw [Option.or_none] at hsettled
      refine ⟨_, ?_, N.host.seq (N.moment (m := .container c (.resolved v)) rfl rfl) hsettled⟩
      rw [World.mark, hms, World.resolve, World.mark]
      simp [World.setContainer]

theorem listen (c : Ref .container) (l : Listener) : Run.Tells H (m.listen c l) := by
  refine N.host.bind N.host.read fun x => ?_
  split
  · exact N.change (m := fun _ => .container c (.waited l)) (fun _ => rfl) (fun _ => rfl) fun _ => rfl
  · next v =>
    refine N.host.bind (N.mark rfl rfl) fun _ => ?_
    exact N.reporting (f := fun q => .container c (.answeredLate l q)) (M.notify l v)
      (fun _ => ⟨rfl, rfl⟩) fun q w r w' h => N.ofExcept_ends h

theorem schedule (c : Ref .context) (t : Task) : Run.Tells H (m.schedule c t) := by
  refine N.host.bind (N.change (m := fun _ => .queue c (.enqueued t)) (fun _ => rfl) (fun _ => rfl)
    fun _ => rfl) fun _ => ?_
  refine N.host.bind N.host.read fun running => ?_
  split
  · exact N.host.pure
  · exact Telling.bind_change (fun _ => rfl) (Telling.andAlways (M.drain c) fun _ => rfl)

theorem scheduleByHandle (c : Ref .context) (t : Task) : Run.Tells H (m.scheduleByHandle c t) := by
  refine N.host.bind N.host.read fun alive => ?_
  split
  · exact N.schedule M c t
  · exact N.host.fail trivial

/-! ### Functions that schedule -/

theorem timer (t : Timer) (context : Ref .context) (arguments : Array Value) :
    Run.Tells S (t.invoke m context arguments) := by
  unfold Timer.invoke
  split
  · exact N.script.bind (N.seen (N.scheduleByHandle M context _)) fun _ => N.script.pure
  · exact N.script.fail trivial

omit M in
/-- What leaves the history alone and does not fail, and what comes after it. -/
theorem after {α β : Type} {x : Hosted α} {f : α → Hosted β}
    (hx : ∀ h, Run.Supplies (·.history = h) (fun _ => True) x) (hf : ∀ a, Run.Tells H (f a)) :
    Run.Tells H (x >>= f) :=
  N.host.bind (N.host.supplies hx) hf

theorem useCallback (site : UseSite) (f : Ref .function) : Run.Tells H (site.useCallback m f) := by
  refine N.after (fun _ => .changeGet fun _ => id) fun c => ?_
  refine N.host.bind (N.host.quiet site.script_quiet) fun script => ?_
  refine N.host.bind (N.host.quiet site.liveContext_quiet) fun context => ?_
  exact N.host.bind (N.schedule M context _) fun _ => N.host.pure

theorem runAll (site : UseSite) (context : Ref .context) (g : Ref .gathering)
    (sources : List ModuleSource) (slot : Nat) :
    Run.Tells H (site.runAll m context g slot sources) := by
  induction sources generalizing slot with
  | nil => exact N.host.pure
  | cons source rest ih => exact N.host.bind (N.schedule M context _) fun _ => ih (slot + 1)

theorem useModules (site : UseSite) (dependencies : List String) (f : Ref .function) :
    Run.Tells H (site.useModules m dependencies f) := by
  refine N.host.bind (N.host.quiet site.liveEnvironment_quiet) fun environment => ?_
  refine N.host.bind (N.host.quiet site.liveContext_quiet) fun context => ?_
  refine N.host.bind (N.host.quiet (environment.resolver.lookupContext_quiet _)) fun start => ?_
  refine N.host.bind (N.host.quiet (environment.resolver.findAll_quiet _ _)) fun sources => ?_
  refine N.host.bind (N.host.quiet site.script_quiet) fun script => ?_
  refine N.host.bind (fun w r w' h => ?_) fun p =>
    N.host.bind (N.runAll M site context p.1 sources 0) fun _ => N.host.pure
  obtain ⟨rfl, rfl⟩ := Run.ofExcept_inj (r := .ok _) h
  exact ⟨[.gathering _ (.opened sources.length f site.this _)], rfl, N.moment rfl rfl⟩

theorem use (site : UseSite) (arguments : Array Value) : Run.Tells S (site.invoke m arguments) := by
  refine N.script.bind (N.seen ?_) fun _ => N.script.pure
  unfold UseSite.apply
  split
  · exact N.host.fail trivial
  · exact N.host.bind (N.host.quiet (UseSite.callbackOf_quiet _)) fun f => N.useCallback M site f
  · refine N.host.bind (N.host.quiet (UseSite.callbackOf_quiet _)) fun f => ?_
    refine N.host.bind (N.host.quiet (UseSite.dependencyNames_quiet _)) fun names => ?_
    split
    · exact N.useCallback M site f
    · exact N.useModules M site _ f

/-- Anything that can be called. -/
theorem callable (f : Callable) (this : Value) (arguments : Array Value) :
    Run.Tells S (f.invoke m this arguments) := by
  cases f with
  | closure c => exact N.closure M c this arguments
  | listMethod method l =>
    exact @ListMethod.invoke_congr _ N.congruence.toSequential m.call m.call M.call method l arguments
  | textMethod method s => exact N.script.quiet (method.invoke_quiet s arguments)
  | console method script => exact N.script.quiet (method.invoke_quiet script arguments)
  | timer t context => exact N.raising (by nofun) (N.timer M t context arguments)
  | use site => exact N.raising (by nofun) (N.use M site arguments)
  | host h => exact N.hostFunction h this arguments

theorem invoke (f : Ref .function) (this : Value) (arguments : Array Value) :
    Run.Tells S (m.invoke f this arguments) := by
  refine N.script.bind N.script.read fun found => ?_
  cases found with
  | none => exact N.script.pure
  | some f =>
    intro w r w' h
    obtain ⟨w₁, hrun, rfl⟩ := Run.ends_of_andAlways (x := f.invoke m this arguments)
      (w := w.mark (.call (.entered f.revisits))) h
    obtain ⟨ms, hms, hs⟩ := N.callable M f this arguments _ r w₁ hrun
    refine ⟨_, ?_, N.call f.revisits hs⟩
    rw [World.mark, hms, World.mark]
    simp

/-! ### Listeners -/

theorem callGathered (g : Ref .gathering) (x : Gathering) : Run.Tells H (m.callGathered g x) := by
  refine N.host.bind (N.mark rfl rfl) fun _ => ?_
  refine N.reporting (f := fun q => .gathering g (.returned q))
    (N.callFor M x.script x.callback x.this x.slots) (fun _ => ⟨rfl, rfl⟩) fun q w r w' h => ?_
  cases q with
  | ok v =>
    obtain ⟨ms, hms, hs⟩ := N.complete M x.container v w r w' h
    exact ⟨ms, _, hms, hs, rfl⟩
  | error e =>
    obtain ⟨rfl, rfl⟩ := Run.ofExcept_inj (r := .error e) h
    exact ⟨[], none, rfl, N.host.done, rfl⟩

theorem gather (g : Ref .gathering) (slot : Nat) (v : Value) : Run.Tells H (m.gather g slot v) := by
  refine N.host.bind (N.change (m := fun _ => .gathering g (.arrived slot v)) (fun _ => rfl)
    (fun _ => rfl) fun _ => rfl) fun _ => ?_
  refine N.host.bind N.host.read fun found => ?_
  split
  · next x =>
    split
    · exact N.callGathered M g x
    · exact N.host.pure
  · exact N.host.pure

/-! ### The host's code -/

omit M in
theorem answering {x : Hosted Unit} (hx : Run.Tells H x) : Run.Tells H (Run.answering x) := by
  intro w r w' h
  obtain ⟨q, w₁, hq, h⟩ := Run.ends_of_attempt (x := x) (w := w.mark (.call .acting)) h
  obtain ⟨ms, hms, hs⟩ := hx _ q w₁ hq
  obtain ⟨rfl, rfl⟩ := Run.ofExcept_inj (r := .ok (Answer.ofResult q))
    (w := w₁.mark (.call (.answered q))) h
  refine ⟨.call .acting :: (ms ++ [.call (.answered q)]), ?_, N.acting q hs⟩
  rw [World.mark, hms, World.mark]
  simp

omit M in
/-- The host may ask for the end of a chain of results, and gets an answer. -/
theorem unwrapping (script : String) (v : Value) {f : Except HostError Value → Hosted Answer}
    (hf : ∀ q, Run.Tells H (f q)) :
    Run.Tells H (Run.attempt (Run.unwrap script v) >>= f) := by
  intro w r w' h
  obtain ⟨q, w₁, hq, hrest⟩ := Run.ends_of_attempt h
  have hended : (Run.unwrap script v w).1 ≠ .exhausted := by
    rw [hq]
    cases q <;> nofun
  obtain ⟨cs, e, hchain⟩ := Run.chain_of_unwrap hended
  -- asking changes nothing
  obtain ⟨-, rfl⟩ := Run.ofExcept_inj (hq.symm.trans (Run.unwrap_of_chain script hchain))
  exact hf q _ r w' hrest

omit M in
/-- The host asks for something that there may be. -/
theorem asking {κ : Type} {g : World → Option κ} {f : Option κ → Hosted Answer}
    (hsome : ∀ c, Run.Tells H (f (some c))) (hnone : Run.Tells H (f none)) :
    Run.Tells H (Run.read g >>= f) := by
  refine N.host.bind N.host.read fun found => ?_
  cases found with
  | some c => exact hsome c
  | none => exact hnone

theorem perform (a : Action) : Run.Tells H (a.perform m) := by
  -- three ways to name something, and all that is told is told once it has been found
  have onNumbered : ∀ k {f : Ref .container → Hosted Answer}, (∀ c, Run.Tells H (f c)) →
      Run.Tells H (Run.onNumbered k f) := fun _ _ hf => N.asking hf N.host.pure
  have onContext : ∀ {f : Ref .context → Hosted Answer}, (∀ c, Run.Tells H (f c)) →
      Run.Tells H (Run.onContext f) := fun hf => N.asking hf N.host.pure
  have onHandle : ∀ {f : Ref .context → Hosted Answer}, (∀ c, Run.Tells H (f c)) →
      Run.Tells H (Run.onHandle f) := fun hf => N.asking hf N.host.pure
  cases a with
  | newContainer =>
    refine N.after (fun _ => ?_) fun _ => N.host.pure
    exact .bind (.changeGet fun _ => id) fun _ => .changeGet fun _ => id
  | complete k v | callback k v =>
    refine N.after (fun _ => v.make_supplies (fun hs hw => hs.history.trans hw) fun _ _ => id)
      fun v => onNumbered k fun c => N.answering (N.complete M c v)
  | chain k j =>
    exact onNumbered k fun target => onNumbered j fun source =>
      N.answering (N.listen M source (.complete target))
  | listen k r => exact onNumbered k fun c => N.answering (N.listen M c (.routine r))
  | result k | isCompleted k => exact onNumbered k fun c => N.host.read
  | same k j => exact N.host.read
  | adapt k => exact onNumbered k fun c => N.unwrapping hostScript _ fun _ => N.host.read
  | schedule r =>
    refine N.host.bind N.host.read fun c => ?_
    split
    · exact N.answering (N.schedule M _ (.routine r))
    · exact N.host.pure
  | scheduleByHandle r => exact onHandle fun c => N.answering (N.scheduleByHandle M c (.routine r))
  | pending | isRunning => exact onContext fun c => N.host.read
  | clear =>
    exact onContext fun c => N.host.bind N.host.read fun _ =>
      N.host.bind (N.change (m := fun w => .queue c (.dropped (w.waitingTasks c))) (fun _ => rfl)
        (fun _ => rfl) fun _ => rfl) fun _ => N.host.pure
  | upgrade => exact onHandle fun c => N.host.read
  | drop => exact onContext fun c => Telling.bind_change (fun _ => rfl) N.host.pure

theorem performAll (tag : Json) (actions : List Action) :
    Run.Tells H (Routine.performAll m tag actions) := by
  induction actions with
  | nil => exact N.host.pure
  | cons a rest ih =>
    exact N.host.bind (N.perform M a) fun _ => N.host.bind (N.host.quiet (Run.log_quiet _)) fun _ => ih

omit M in
theorem finish (fails : Option HostError) : Run.Tells H (Routine.finish fails) := by
  cases fails with
  | none => exact N.host.pure
  | some e =>
    intro w r w' h
    obtain ⟨rfl, rfl⟩ := Run.ofExcept_inj (r := .error e) (w := w.mark (.call (.supplied e))) h
    exact ⟨[.call (.supplied e)], rfl, N.supplied⟩

theorem tell (l : Listener) (v : Value) : Run.Tells H (m.tell l v) := by
  cases l with
  | complete c => exact N.complete M c v
  | gather g slot => exact N.gather M g slot v
  | deliver tag fails =>
    exact N.host.bind N.host.read fun _ => N.host.bind (N.host.quiet (Run.log_quiet _)) fun _ =>
      N.finish fails
  | routine r =>
    obtain ⟨tag, actions, fails⟩ := r
    exact N.host.bind N.host.read fun _ => N.host.bind (N.host.quiet (Run.log_quiet _)) fun _ =>
      N.host.bind (N.performAll M tag actions) fun _ => N.finish fails

/-! ### Tasks -/

theorem moduleValue (r : Ref .environment) (e : Environment) (context : Ref .context)
    (source : ModuleSource) (globals arguments : Bindings) :
    Run.Tells H (e.moduleValue m r context source globals arguments) := by
  refine N.host.bind (N.host.aside Exports.fresh_aside) fun x => ?_
  refine N.host.bind (N.host.aside (e.moduleBindings_aside r context source _ _ x)) fun b => ?_
  refine N.host.bind (N.named ((N.engine M e.engine source.name source.content b).mono ?_)) fun v =>
    N.host.read
  rintro ms o (hs | ⟨rfl, t, rfl⟩)
  · exact N.inName source.name hs
  · exact N.unread

/-- A module that failed is not handed on, which may be remembered of a gathering. -/
theorem handOn_error (then_ : Listener) (ms : List Moment) {e : HostError} {w w' : World}
    {r : Except HostError Unit} (hs : H ms (some e)) (h : m.handOn then_ (.error e) w = Run.ofExcept r w') :
    ∃ ms', w'.history = ms'.reverse ++ w.history ∧ H (ms ++ ms') (Run.errorOf r) := by
  obtain ⟨rfl, rfl⟩ := Run.ofExcept_inj (r := .error e) (w := w.forsake then_) h
  cases then_ with
  | gather g slot => exact ⟨[.gathering g (.failed slot)], rfl, N.passes hs rfl rfl⟩
  | _ => exact ⟨[], rfl, (List.append_nil ms).symm ▸ hs⟩

theorem evaluateModule (r : Ref .environment) (context : Ref .context) (source : ModuleSource)
    (globals arguments : Bindings) (then_ : Listener) :
    Run.Tells H (m.evaluateModule r context source globals arguments then_) := by
  refine N.host.bind N.host.read fun found => ?_
  split
  · intro w r w' h
    exact N.handOn_error M then_ [] (N.host.own (e := .lifecycleMisuse .environmentGone) trivial) h
  · next e =>
    intro w q w' h
    obtain ⟨v, w₁, hv, h⟩ := Run.ends_of_attempt h
    obtain ⟨ms, hms, hs⟩ := N.moduleValue M r e context source globals arguments w v w₁ hv
    cases v with
    | error e =>
      obtain ⟨ms', hms', hs'⟩ := N.handOn_error M then_ ms hs h
      exact ⟨ms ++ ms', added_append hms hms', hs'⟩
    | ok v =>
      have hgiven : Run.Tells H (m.handOn then_ (.ok v)) := by
        cases v with
        | container c => exact N.listen M c then_
        | _ => exact M.notify then_ _
      obtain ⟨ms', hms', hs'⟩ := hgiven w₁ q w' h
      exact ⟨ms ++ ms', added_append hms hms', N.host.seq hs hs'⟩

theorem runTask (t : Task) : Run.Tells H (m.runTask t) := by
  cases t with
  | module r context source globals arguments then_ =>
    exact N.evaluateModule M r context source globals arguments then_
  | useCallback f this script c =>
    exact N.host.bind (N.callFor M script f this _) fun v => N.complete M c v
  | timer t f arguments => exact N.host.bind (N.callFor M _ f _ _) fun _ => N.host.pure
  | routine r =>
    obtain ⟨tag, actions, fails⟩ := r
    exact N.host.bind (N.host.quiet (Run.log_quiet _)) fun _ =>
      N.host.bind (N.performAll M tag actions) fun _ =>
        N.host.bind (N.host.quiet (Run.log_quiet _)) fun _ => N.finish fails

theorem drain (c : Ref .context) : Run.Tells H (Run.drainBy m.runTask m.drain c) := by
  intro w r w' h
  rcases hd : w.dequeue c with ⟨_ | t, w₁⟩
  · rw [Run.drainBy_none hd] at h
    obtain ⟨rfl, rfl⟩ := Run.ofExcept_inj (r := .ok ()) h
    exact ⟨[], by rw [(World.dequeue_none hd).2]; rfl, N.host.done⟩
  · rw [Run.drainBy_first hd] at h
    obtain ⟨x, rest, -, -, hw₁⟩ := World.dequeue_some hd
    -- the rest of the queue runs even after the task failed, whose error counts
    have htask : Run.Tells H (do
        let first ← Run.attempt (m.runTask t)
        Run.mark (.queue c (.finished t first))
        let rest ← Run.attempt (m.drain c)
        Run.ofExcept (firstError first rest) : Hosted Unit) := by
      refine N.reporting (f := fun q => .queue c (.finished t q)) (N.runTask M t)
        (fun _ => ⟨rfl, rfl⟩) fun first w r w' h => ?_
      obtain ⟨others, w₁, hothers, h⟩ := Run.ends_of_attempt h
      obtain ⟨ms, hms, hs⟩ := M.drain c w others w₁ hothers
      obtain ⟨rfl, rfl⟩ := Run.ofExcept_inj h
      exact ⟨ms, _, hms, hs, by cases first <;> rfl⟩
    obtain ⟨ms, hms, hs⟩ := htask w₁ r w' h
    refine ⟨[.queue c (.started t)] ++ ms, ?_, N.host.seq (N.moment rfl rfl) hs⟩
    rw [hms, hw₁, List.reverse_append, List.append_assoc]
    rfl

end Narration

/-- **Every machine tells such stories.** -/
theorem Machine.ofFuel_tells {S : List Moment → Option ScriptError → Prop}
    {H : List Moment → Option HostError → Prop} (N : Narration S H) (n : Nat) :
    (ofFuel n).Tells S H := by
  induction n with
  | zero =>
    -- a run without fuel does not end
    exact ⟨fun _ _ _ => Run.tells_exhausted, fun _ _ => Run.tells_exhausted,
      fun _ => Run.tells_exhausted⟩
  | succ n ih => exact ⟨N.invoke ih, N.tell ih, N.drain ih⟩

end ScriptModules
