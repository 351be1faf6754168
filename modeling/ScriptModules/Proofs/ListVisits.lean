import ScriptModules.Machine.Fuel

/-!
# The visits of `map` and `forEach`

The two methods of a list that call back read its items once, when they are called, and make one
call for each of them. A callback may do what it likes with the list meanwhile: it runs in the
world that the call before it left, but which items it is given was settled at the start.

* `CallsInOrder`: calls for the first items, each with its result, and the worlds between them.
* `ListMethod.visit_calls`: visiting makes exactly these calls, up to the first that does not
  yield a value. It is the induction on the items left, with the calls made so far in hand.
* `visits_snapshot`: what a call of one of the two methods comes to.
-/

namespace ScriptModules

variable {perform : Nat → Value → Script Value} {items results : List Value} {w w' : World}
  {worlds : Nat → World}

/-! ### Calls in a row -/

/-- **Calls for the first items, in order.** The `i`-th of them is for the item with index `i`. It
runs in the world that the one before it left, the first one in `w`, and yields the `i`-th
result. -/
structure CallsInOrder (perform : Nat → Value → Script Value) (items : List Value) (w : World)
    (results : List Value) (worlds : Nat → World) : Prop where
  start : worlds 0 = w
  within : results.length ≤ items.length
  each : ∀ (i : Nat) (hi : i < items.length) (hr : i < results.length),
    perform i items[i] (worlds i) = (.done results[i], worlds (i + 1))

namespace CallsInOrder

/-- No call has been made yet. -/
theorem none (perform : Nat → Value → Script Value) (items : List Value) (w : World) :
    CallsInOrder perform items w [] fun _ => w where
  start := rfl
  within := Nat.zero_le _
  each _ _ hr := absurd hr (Nat.not_lt_zero _)

/-- A call for the first item comes before calls for the others. -/
theorem cons {v r : Value} {rest : List Value} (hfirst : perform 0 v w = (.done r, w'))
    (h : CallsInOrder (fun i => perform (i + 1)) rest w' results worlds) :
    CallsInOrder perform (v :: rest) w (r :: results) fun
      | 0 => w
      | i + 1 => worlds i where
  start := rfl
  within := Nat.succ_le_succ h.within
  each i hi hr := by
    cases i with
    | zero =>
      show perform 0 v w = (.done r, worlds 0)
      rw [h.start]
      exact hfirst
    | succ i => exact h.each i (Nat.lt_of_succ_lt_succ hi) (Nat.lt_of_succ_lt_succ hr)

end CallsInOrder

/-- **The call that stops a row:** it is for the first item without a result, and ends in `w'` with
no value. What the calls were made for ends in the same way: with the error of the call, or not at
all. -/
inductive CallsStop {α : Type} (perform : Nat → Value → Script Value) (items results : List Value)
    (worlds : Nat → World) (w' : World) : Outcome ScriptError α → Prop
  | failed {e : ScriptError} (h : results.length < items.length)
      (hcall : perform results.length items[results.length] (worlds results.length) =
        (.failed e, w')) : CallsStop perform items results worlds w' (.failed e)
  | exhausted (h : results.length < items.length)
      (hcall : perform results.length items[results.length] (worlds results.length) =
        (.exhausted, w')) : CallsStop perform items results worlds w' .exhausted

namespace CallsStop

variable {α β : Type}

/-- A call for the first item comes before calls for the others. -/
theorem cons {v r : Value} {rest : List Value} {o : Outcome ScriptError α}
    (h : CallsStop (fun i => perform (i + 1)) rest results worlds w' o) :
    CallsStop perform (v :: rest) (r :: results) (fun | 0 => w | i + 1 => worlds i) w' o := by
  cases h with
  | failed h hcall => exact .failed (Nat.succ_lt_succ h) hcall
  | exhausted h hcall => exact .exhausted (Nat.succ_lt_succ h) hcall

/-- What would have come next does not change it. -/
theorem bind {x : Script α} {f : α → Script β} {o : Outcome ScriptError α} (hx : x w = (o, w'))
    (h : CallsStop perform items results worlds w' o) :
    ∃ o', (x >>= f) w = (o', w') ∧ CallsStop perform items results worlds w' o' := by
  cases h with
  | failed h hcall => exact ⟨_, Run.bind_of_failed hx, .failed h hcall⟩
  | exhausted h hcall => exact ⟨_, Run.bind_of_exhausted hx, .exhausted h hcall⟩

end CallsStop

/-! ### Visiting -/

namespace ListMethod

/-- How an error names what a method calls back, for the two methods that do. -/
def callbackName? : ListMethod → Option String
  | .map => some "map callback"
  | .forEach => some "forEach callback"
  | _ => none

section

variable (call : CallSemantics) (callback : Value) (name : String) (l : Ref .list)

/-- The call that visiting makes for an item: with the item, its index and the list, and no
`this`. -/
def callFor (i : Nat) (v : Value) : Script Value :=
  callValue call callback name .undefined #[v, .number (Float.ofNat i), .list l]

/-- **Visiting makes the calls in a row,** for the rest of the items after `seen` others. It ends
with all results, or with the first call that yields none. -/
theorem visit_calls (rest : List Value) (seen : Nat) (sofar : Array Value) (w : World) :
    ∃ results worlds,
      CallsInOrder (fun i => callFor call callback name l (seen + i)) rest w results worlds ∧
      ((results.length = rest.length ∧
          visit call callback name l seen sofar rest w =
            (.done (sofar ++ results.toArray), worlds results.length)) ∨
        ∃ o w',
          visit call callback name l seen sofar rest w = (o, w') ∧
          CallsStop (fun i => callFor call callback name l (seen + i)) rest results worlds w'
            o) := by
  induction rest generalizing seen sofar w with
  | nil =>
    refine ⟨[], fun _ => w, .none _ _ w, .inl ⟨rfl, ?_⟩⟩
    simp [visit]
  | cons v rest ih =>
    rcases hfirst : callFor call callback name l seen v w with ⟨r | e | _, w'⟩
    · -- the first call yields `r`; the others go on in its world, with one result more
      obtain ⟨results, worlds, hcalls, hend⟩ := ih (seen + 1) (sofar.push r) w'
      have hvisit : visit call callback name l seen sofar (v :: rest) w =
          visit call callback name l (seen + 1) (sofar.push r) rest w' :=
        Run.bind_of_done hfirst
      have hshift : ∀ i, seen + 1 + i = seen + (i + 1) := fun i => by omega
      simp only [hshift] at hcalls hend
      refine ⟨r :: results, _, hcalls.cons hfirst, ?_⟩
      rw [hvisit]
      obtain ⟨hlength, hrest⟩ | ⟨o, w'', hrest, hstop⟩ := hend
      · refine .inl ⟨congrArg (· + 1) hlength, ?_⟩
        rw [hrest]
        simp
      · exact .inr ⟨o, w'', hrest, hstop.cons⟩
    · exact ⟨[], fun _ => w, .none _ _ w, .inr ⟨.failed e, w', Run.bind_of_failed hfirst,
        .failed (Nat.zero_lt_succ _) hfirst⟩⟩
    · exact ⟨[], fun _ => w, .none _ _ w, .inr ⟨.exhausted, w', Run.bind_of_exhausted hfirst,
        .exhausted (Nat.zero_lt_succ _) hfirst⟩⟩

end

/-- **How a method ends when every call has yielded a result,** in the world of the last: `map`
answers with a list that was not there before and holds the results, and no other list changes;
`forEach` answers nothing and changes nothing. -/
inductive Concludes (results : List Value) (w : World) : ListMethod → Value → World → Prop
  | map {r : Ref .list} {lists : Table .list (Array Value)} (hfresh : w.lists.get? r = none)
      (hnew : lists.get? r = some results.toArray)
      (hold : ∀ l, l ≠ r → lists.get? l = w.lists.get? l) :
      Concludes results w .map (.list r) { w with lists := lists }
  | forEach : Concludes results w .forEach .undefined w

/-- A new list is one that was not there before. -/
theorem Concludes.newList (results : List Value) (w : World) :
    Concludes results w .map (.list w.lists.fresh)
      { w with lists := w.lists.add results.toArray } := by
  refine .map (Table.get?_fresh _) (Table.get?_add_fresh _ _) fun l hl => ?_
  rw [Table.get?_add, if_neg hl]

variable {method : ListMethod} {name : String}

/-- **A method that calls back** makes its calls for the items that the list has when it begins. -/
theorem invoke_calls (hname : method.callbackName? = some name) (call : CallSemantics)
    (l : Ref .list) (arguments : Array Value) (w : World) :
    ∃ results worlds,
      CallsInOrder (callFor call ((arguments[0]?).getD .undefined) name l) (w.items l).toList w
        results worlds ∧
      ((results.length = (w.items l).size ∧
          ∃ v w', method.invoke call l arguments w = (.done v, w') ∧
            method.Concludes results (worlds results.length) v w') ∨
        ∃ o w', method.invoke call l arguments w = (o, w') ∧
          CallsStop (callFor call ((arguments[0]?).getD .undefined) name l) (w.items l).toList
            results worlds w' o) := by
  obtain ⟨results, worlds, hcalls, hend⟩ :=
    visit_calls call ((arguments[0]?).getD .undefined) name l (w.items l).toList 0 #[] w
  simp only [Nat.zero_add, Array.empty_append, Array.length_toList] at hcalls hend
  refine ⟨results, worlds, hcalls, ?_⟩
  obtain ⟨hall, hvisit⟩ | ⟨o, w', hvisit, hstop⟩ := hend
  -- only when every call has returned is there a value that depends on the method
  · refine .inl ⟨hall, ?_⟩
    cases method with
    | map =>
      cases hname
      refine ⟨_, _, ?_, .newList results _⟩
      show ((visit call _ _ l 0 #[] (w.items l).toList) >>= _) w = _
      rw [Run.bind_of_done hvisit]
      rfl
    | forEach =>
      cases hname
      refine ⟨_, _, ?_, .forEach⟩
      show ((visit call _ _ l 0 #[] (w.items l).toList) >>= _) w = _
      rw [Run.bind_of_done hvisit]
      rfl
    | push | join | indexOf => cases hname
  · refine .inr ?_
    cases method with
    | map | forEach =>
      cases hname
      obtain ⟨o', hinvoke, hstop'⟩ := hstop.bind hvisit
      exact ⟨o', w', hinvoke, hstop'⟩
    | push | join | indexOf => cases hname

end ListMethod

/-- Reading the name of a method from a list makes that method of the list. -/
theorem Run.getMember_method (method : ListMethod) (l : Ref .list) (w : World) :
    Run.getMember (.list l) method.name w = (.done (.function w.functions.fresh),
      { w with functions := w.functions.add (.listMethod method l) }) := by
  cases method <;> rfl

/-- **The items on entry are visited, once each and in order.** A call of `map` or `forEach` of a
list makes a call of its first argument for each item that the list has at that moment, with the
item, its index and the list, and no `this`; what those calls do to the list makes no difference.
Each call goes on in the world that the one before it left. Either all of them yield results, and
the method ends as `ListMethod.Concludes` says; or one does not, which is the last to be made, and
the method ends as it did. -/
theorem items_on_entry_visited_once (m : Machine) {method : ListMethod} {name : String}
    (hname : method.callbackName? = some name) {f : Ref .function} {l : Ref .list} {w : World}
    (hf : w.functions.get? f = some (.listMethod method l)) (this : Value)
    (arguments : Array Value) :
    let callback := (arguments[0]?).getD .undefined
    let items := (w.items l).toList
    let perform := ListMethod.callFor m.call callback name l
    ∃ results worlds,
      CallsInOrder perform items (w.mark (.call (.entered true))) results worlds ∧
      ((results.length = items.length ∧
          ∃ v w', method.Concludes results (worlds results.length) v w' ∧
            m.invoke f this arguments w = (.done v, w'.mark (.call .left))) ∨
        (∃ e w', CallsStop perform items results worlds w' (.failed e : Outcome _ Value) ∧
          m.invoke f this arguments w = (.failed e, w'.mark (.call .left))) ∨
        ∃ w', CallsStop perform items results worlds w' (.exhausted : Outcome _ Value) ∧
          m.invoke f this arguments w = (.exhausted, w')) := by
  intro callback items perform
  have hrevisits : (Callable.listMethod method l).revisits = true := by
    cases method with
    | map | forEach => rfl
    | push | join | indexOf => cases hname
  -- the method runs between two marks of the history, which it does not read
  have hinvoke : m.invoke f this arguments w =
      Run.andAlways (method.invoke m.call l arguments) (·.mark (.call .left))
        (w.mark (.call (.entered true))) := by
    unfold Machine.invoke
    rw [Run.bind_of_done (Run.read_apply _ _), hf]
    show (Run.mark (.call (.entered (Callable.listMethod method l).revisits)) >>= fun _ => _) w = _
    rw [hrevisits]
    rfl
  obtain ⟨results, worlds, hcalls, hend⟩ := ListMethod.invoke_calls hname m.call l arguments
    (w.mark (.call (.entered true)))
  refine ⟨results, worlds, hcalls, ?_⟩
  rw [hinvoke]
  obtain ⟨hall, v, w', hrun, hconcludes⟩ | ⟨o, w', hrun, hstop⟩ := hend
  · exact .inl ⟨hall, v, w', hconcludes, Run.andAlways_of_eq (r := .ok v) hrun⟩
  · cases o with
    | done v => cases hstop
    | failed e => exact .inr (.inl ⟨e, w', hstop, Run.andAlways_of_eq (r := .error e) hrun⟩)
    | exhausted => exact .inr (.inr ⟨w', hstop, Run.andAlways_exhausted hrun⟩)

/-- A world with a list of two texts, and its methods `map` and `push`. -/
def World.selfPushing : World :=
  { World.empty with
    lists := ⟨#[#[.text "a", .text "b"]]⟩
    functions := ⟨#[.listMethod .map ⟨0⟩, .listMethod .push ⟨0⟩]⟩ }

/-- Pushing to the list while it is mapped: there are two calls, and the list, which has eight items
in the end, yields two results. -/
theorem pushing_visited_once :
    let run := (Machine.ofFuel 1).invoke ⟨0⟩ .undefined #[.function ⟨1⟩] World.selfPushing
    (∃ results worlds,
      CallsInOrder (ListMethod.callFor (Machine.ofFuel 1).call (.function ⟨1⟩) "map callback" ⟨0⟩)
        [.text "a", .text "b"] (World.selfPushing.mark (.call (.entered true))) results worlds ∧
      results.length = 2 ∧ (run.2.items ⟨1⟩) = results.toArray) ∧
    (run.2.items ⟨0⟩).size = 8 := by
  refine ⟨?_, rfl⟩
  have hname : ListMethod.map.callbackName? = some "map callback" := rfl
  have hmethod : World.selfPushing.functions.get? ⟨0⟩ = some (.listMethod .map ⟨0⟩) := rfl
  obtain ⟨results, worlds, hcalls, hend⟩ :=
    items_on_entry_visited_once (Machine.ofFuel 1) hname hmethod .undefined #[.function ⟨1⟩]
  refine ⟨results, worlds, hcalls, ?_⟩
  -- the run ends with the list that comes next, so the first of the three ways is the one taken
  have hdone : ((Machine.ofFuel 1).invoke ⟨0⟩ .undefined #[.function ⟨1⟩] World.selfPushing).1 =
      .done (.list ⟨1⟩) := rfl
  obtain ⟨hall, v, w', hconcludes, hrun⟩ | ⟨e, w', -, hrun⟩ | ⟨w', -, hrun⟩ := hend
  · rw [hrun] at hdone ⊢
    cases hdone
    cases hconcludes with
    | map _ hnew _ => exact ⟨hall, congrArg (·.getD #[]) hnew⟩
  · rw [hrun] at hdone
    cases hdone
  · rw [hrun] at hdone
    cases hdone

end ScriptModules
