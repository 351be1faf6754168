import ScriptModules.World.Basic

/-!
# Runs

A run changes the world and yields a value or fails with an error; what it changed before it
failed stays changed. A third outcome, `exhausted`, is neither: the fuel ran out, or the text of
something that holds itself was asked for. No run can catch it.
-/

namespace ScriptModules

/-- How a run ends. -/
inductive Outcome (ε α : Type) where
  | done (a : α)
  | failed (e : ε)
  | exhausted

/-- A computation that changes the world. -/
def Run (ε α : Type) : Type := World → Outcome ε α × World

/-- A run of script code. -/
abbrev Script := Run ScriptError

/-- A run of the host's code. -/
abbrev Hosted := Run HostError

namespace Run

variable {ε ε' α β : Type}

/-- Yield a value and change nothing. -/
@[inline] def done (a : α) : Run ε α := fun w => (.done a, w)

/-- Fail with an error. -/
@[inline] def fail (e : ε) : Run ε α := fun w => (.failed e, w)

/-- End without an outcome. -/
@[inline] def exhausted : Run ε α := fun w => (.exhausted, w)

/-- Run `x`, and then what its value asks for. -/
@[inline] def andThen (x : Run ε α) (f : α → Run ε β) : Run ε β := fun w =>
  match x w with
  | (.done a, w) => f a w
  | (.failed e, w) => (.failed e, w)
  | (.exhausted, w) => (.exhausted, w)

instance : Monad (Run ε) where
  pure := done
  bind := andThen

/-- What a function of the world gives. -/
@[inline] def read (f : World → α) : Run ε α := fun w => (.done (f w), w)

/-- Change the world. -/
@[inline] def change (f : World → World) : Run ε Unit := fun w => (.done (), f w)

/-- Change the world and yield something. -/
@[inline] def changeGet (f : World → α × World) : Run ε α := fun w =>
  let (a, w) := f w
  (.done a, w)

/-- The value or the error. -/
@[inline] def ofExcept : Except ε α → Run ε α
  | .ok a => done a
  | .error e => fail e

/-- Run `x` and yield its error instead of failing. -/
@[inline] def attempt (x : Run ε α) : Run ε' (Except ε α) := fun w =>
  match x w with
  | (.done a, w) => (.done (.ok a), w)
  | (.failed e, w) => (.done (.error e), w)
  | (.exhausted, w) => (.exhausted, w)

/-- Run `x` with its error seen in another way. -/
@[inline] def mapError (f : ε → ε') (x : Run ε α) : Run ε' α := fun w =>
  match x w with
  | (.done a, w) => (.done a, w)
  | (.failed e, w) => (.failed (f e), w)
  | (.exhausted, w) => (.exhausted, w)

/-- Run `x` and change the world when it is over, whether it failed or not. -/
@[inline] def andAlways (x : Run ε α) (f : World → World) : Run ε α := fun w =>
  match x w with
  | (.done a, w) => (.done a, f w)
  | (.failed e, w) => (.failed e, f w)
  | (.exhausted, w) => (.exhausted, w)

/-- Run `x`, and change the world if it failed. -/
@[inline] def onFailure (f : ε → World → World) (x : Run ε α) : Run ε α := fun w =>
  match x w with
  | (.done a, w) => (.done a, w)
  | (.failed e, w) => (.failed e, f e w)
  | (.exhausted, w) => (.exhausted, w)

/-- The error of a result, if it is one. -/
def errorOf : Except ε α → Option ε
  | .ok _ => none
  | .error e => some e

/-! ### Equations -/

@[simp] theorem pure_apply (a : α) (w : World) : (pure a : Run ε α) w = (.done a, w) := rfl

@[simp] theorem done_apply (a : α) (w : World) : (done a : Run ε α) w = (.done a, w) := rfl

@[simp] theorem fail_apply (e : ε) (w : World) : (fail e : Run ε α) w = (.failed e, w) := rfl

theorem bind_apply (x : Run ε α) (f : α → Run ε β) (w : World) :
    (x >>= f) w = match x w with
      | (.done a, w) => f a w
      | (.failed e, w) => (.failed e, w)
      | (.exhausted, w) => (.exhausted, w) := rfl

theorem bind_of_done {x : Run ε α} {f : α → Run ε β} {w w' : World} {a : α}
    (h : x w = (.done a, w')) : (x >>= f) w = f a w' := by
  rw [bind_apply, h]

theorem bind_of_failed {x : Run ε α} {f : α → Run ε β} {w w' : World} {e : ε}
    (h : x w = (.failed e, w')) : (x >>= f) w = (.failed e, w') := by
  rw [bind_apply, h]

theorem bind_of_exhausted {x : Run ε α} {f : α → Run ε β} {w w' : World}
    (h : x w = (.exhausted, w')) : (x >>= f) w = (.exhausted, w') := by
  rw [bind_apply, h]

/-- A value of a run followed by another comes from a value of the first. -/
theorem exists_of_bind_done {x : Run ε α} {f : α → Run ε β} {w w' : World} {b : β}
    (h : (x >>= f) w = (.done b, w')) : ∃ a w₁, x w = (.done a, w₁) ∧ f a w₁ = (.done b, w') := by
  rw [bind_apply] at h
  rcases hx : x w with ⟨a | e | _, w₁⟩
  · rw [hx] at h
    exact ⟨a, w₁, rfl, h⟩
  · rw [hx] at h
    exact absurd (Prod.mk.inj h).1 nofun
  · rw [hx] at h
    exact absurd (Prod.mk.inj h).1 nofun

/-- How a run ends and where tells its result. -/
theorem ofExcept_inj {r r' : Except ε α} {w w' : World}
    (h : (ofExcept r : Run ε α) w = ofExcept r' w') : r = r' ∧ w = w' := by
  cases r <;> cases r' <;> cases h <;> exact ⟨rfl, rfl⟩

/-- A run that ends has a value or an error. -/
theorem exists_eq_ofExcept {x : Run ε α} {w : World} (h : (x w).1 ≠ .exhausted) :
    ∃ r w', x w = ofExcept r w' := by
  rcases hx : x w with ⟨a | e | _, w'⟩
  · exact ⟨.ok a, w', rfl⟩
  · exact ⟨.error e, w', rfl⟩
  · rw [hx] at h
    exact absurd rfl h

theorem attempt_of_eq {x : Run ε α} {w w' : World} {r : Except ε α} (h : x w = ofExcept r w') :
    (attempt x : Run ε' _) w = (.done r, w') := by
  unfold attempt
  rw [h]
  cases r <;> rfl

theorem attempt_exhausted {x : Run ε α} {w w' : World} (h : x w = (.exhausted, w')) :
    (attempt x : Run ε' _) w = (.exhausted, w') := by
  unfold attempt
  rw [h]

theorem andAlways_of_eq {x : Run ε α} {w w' : World} {r : Except ε α} {g : World → World}
    (h : x w = ofExcept r w') : andAlways x g w = ofExcept r (g w') := by
  unfold andAlways
  rw [h]
  cases r <;> rfl

theorem andAlways_exhausted {x : Run ε α} {w w' : World} {g : World → World}
    (h : x w = (.exhausted, w')) : andAlways x g w = (.exhausted, w') := by
  unfold andAlways
  rw [h]

theorem onFailure_exhausted {x : Run ε α} {w w' : World} {g : ε → World → World}
    (h : x w = (.exhausted, w')) : onFailure g x w = (.exhausted, w') := by
  unfold onFailure
  rw [h]

@[simp] theorem read_apply (f : World → α) (w : World) : (read f : Run ε α) w = (.done (f w), w) := rfl

@[simp] theorem change_apply (f : World → World) (w : World) :
    (change f : Run ε Unit) w = (.done (), f w) := rfl

theorem changeGet_of_eq {f : World → α × World} {w w' : World} {a : α} (h : f w = (a, w')) :
    (changeGet f : Run ε α) w = (.done a, w') := by
  rw [changeGet, h]

end Run

/-! ### Making and changing things -/

/-- The result of a container, if it has one. -/
def Container.result? : Container → Option Value
  | .resolved v => some v
  | .pending _ => none

namespace World

/-- The items of a list. -/
def items (w : World) (l : Ref .list) : Array Value := (w.lists.get? l).getD #[]

/-- An object. -/
def object (w : World) (o : Ref .object) : Object := (w.objects.get? o).getD {}

/-- A container. -/
def container (w : World) (c : Ref .container) : Container := (w.containers.get? c).getD (.pending [])

/-- The result of a container. -/
def result? (w : World) (c : Ref .container) : Option Value := (w.container c).result?

/-- Remember that something happened. -/
def mark (w : World) (m : Moment) : World := { w with history := m :: w.history }

/-- What a view finds in the history, in order. -/
def moments {α : Type} (w : World) (view : Moment → Option α) : List α :=
  (w.history.filterMap view).reverse

theorem moments_mark {α : Type} (w : World) (view : Moment → Option α) (m : Moment) :
    (w.mark m).moments view = w.moments view ++ (view m).toList := by
  unfold moments mark
  cases h : view m with
  | none => simp [h]
  | some q => simp [h]

/-- The world with one more heap. -/
def addHeap (w : World) : World := { w with heaps := w.heaps.add {} }

/-- The world with one more scope, which is tracked by its heap. -/
def addScope (w : World) (s : Scope) : World :=
  { w with
    scopes := w.scopes.add s
    heaps := w.heaps.update s.heap fun h => { h with scopes := w.scopes.fresh :: h.scopes } }

/-- The world with one more container. -/
def addContainer (w : World) (x : Container) : World :=
  { w with containers := w.containers.add x }

/-- The world with a new gathering of `n` results, and a container for what the callback returns. -/
def openGathering (w : World) (n : Nat) (callback : Ref .function) (this : Value)
    (script : String) : World :=
  { w.addContainer (.pending []) with
    gatherings := w.gatherings.add
      { slots := Array.replicate n .undefined
        remaining := n
        callback := callback
        this := this
        script := script
        container := w.containers.fresh } }.mark
    (.gathering w.gatherings.fresh (.opened n callback this w.containers.fresh))

/-- The world with a result put into its slot of a gathering. -/
def arrive (w : World) (g : Ref .gathering) (slot : Nat) (v : Value) : World :=
  { w with
    gatherings := w.gatherings.update g fun x =>
      { x with slots := x.slots.setIfInBounds slot v, remaining := x.remaining - 1 } }.mark
    (.gathering g (.arrived slot v))

/-- Write an event into the log. -/
def note (w : World) (e : Event) : World := { w with log := e :: w.log }

end World

namespace Run

variable {ε : Type}

/-- A new list. -/
def newList (items : Array Value) : Run ε (Ref .list) :=
  changeGet fun w => (w.lists.fresh, { w with lists := w.lists.add items })

/-- A new object. -/
def newObject (o : Object) : Run ε (Ref .object) :=
  changeGet fun w => (w.objects.fresh, { w with objects := w.objects.add o })

/-- A new function. -/
def newFunction (f : Callable) : Run ε (Ref .function) :=
  changeGet fun w => (w.functions.fresh, { w with functions := w.functions.add f })

/-- A new scope. -/
def newScope (s : Scope) : Run ε (Ref .scope) :=
  changeGet fun w => (w.scopes.fresh, w.addScope s)

/-- A new heap. -/
def newHeap : Run ε (Ref .heap) :=
  changeGet fun w => (w.heaps.fresh, w.addHeap)

/-- A new flag that is not raised. -/
def newFlag : Run ε (Ref .flag) :=
  changeGet fun w => (w.flags.fresh, { w with flags := w.flags.add false })

/-- A new lazy cell. -/
def newCell (s : Supplier) : Run ε (Ref .cell) :=
  changeGet fun w => (w.cells.fresh, { w with cells := w.cells.add ⟨s, none⟩ })

/-- A new container. -/
def newContainer (c : Container) : Run ε (Ref .container) :=
  changeGet fun w => (w.containers.fresh, w.addContainer c)

/-- A new gathering of `n` results, and the container for what the callback returns. -/
def openGathering (n : Nat) (callback : Ref .function) (this : Value) (script : String) :
    Run ε (Ref .gathering × Ref .container) :=
  changeGet fun w => ((w.gatherings.fresh, w.containers.fresh),
    w.openGathering n callback this script)

/-- A new execution context with a heap of its own, held by its maker. -/
def newContext (holders : Nat) : Run ε (Ref .context) := do
  let h ← newHeap
  changeGet fun w =>
    (w.contexts.fresh, { w with contexts := w.contexts.add { heap := h, holders := holders } })

/-- A new environment, held by its maker. -/
def newEnvironment (e : Environment) : Run ε (Ref .environment) :=
  changeGet fun w => (w.environments.fresh, { w with environments := w.environments.add e })

/-- Write an event into the log. -/
def log (e : Event) : Run ε Unit := change fun w => w.note e

/-- Remember that something happened. -/
def mark (m : Moment) : Run ε Unit := change fun w => w.mark m

/-- Run a call that a script makes, and remember its fault. -/
def noticing {α : Type} (x : Script α) : Script α :=
  onFailure (fun e w => w.mark (.call (.failed e))) x

/-- Run a function that calls into the host, and remember its fault. -/
def raising {α : Type} (f : Callable) (x : Script α) : Script α :=
  onFailure (fun e w => w.mark (.call (.raised f e))) x

/-- **Run code in the name of a script,** whose fault it is if the code fails. -/
def inName {α : Type} (script : String) (x : Script α) : Hosted α := do
  mark (.call (.begun script))
  let r ← attempt x
  mark (.call (.ended script (errorOf r)))
  ofExcept (r.mapError (HostError.ofScript script))

/-- The form of a value that is found in the world. What holds itself has none, and looking for it
does not end. -/
def formOf {α : Type} (f : World → Option α) : Run ε α := fun w =>
  match f w with
  | some a => (.done a, w)
  | none => (.exhausted, w.mark (.call .endless))

/-- Write notes into the log. -/
def logNotes (notes : List Note) : Run ε Unit :=
  change fun w => notes.foldl (fun w n => w.note (.resolver n)) w

/-- The value of a lookup, with its notes written into the log. -/
def noted {α : Type} (x : Noted α) : Run ε α := do
  logNotes x.notes
  return x.value

end Run

end ScriptModules
