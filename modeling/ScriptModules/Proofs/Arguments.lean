import ScriptModules.Proofs.Use

/-!
# The arguments of callbacks

A module whose result is a container is heard only when that container has finished, so what a slot
of a gathering holds is either plain or what a finished container told it (`Sourced`). One layer is
all that is waited for: a container may finish with another one that is still pending, as the
container of a `use` does whose callback returns what another `use` answered, and then the callback
gets that. `arguments_told` says of every callback of a session where the containers among its
arguments come from, and `callback_gets_pending` is a session in which one of them is pending.
-/

namespace ScriptModules

/-! ### What a history says of results and calls -/

/-- A container told a listener its result, at once or after it had waited. -/
def ToldIn (history : List Moment) (l : Listener) (v : Value) : Prop :=
  ∃ c, .container c (.told l v) ∈ history ∨ .container c (.toldLate l v) ∈ history

theorem ToldIn.cons {history : List Moment} {l : Listener} {v : Value}
    (h : ToldIn history l v) (m : Moment) : ToldIn (m :: history) l v := by
  obtain ⟨c, h⟩ := h
  exact ⟨c, h.imp (List.mem_cons_of_mem m) (List.mem_cons_of_mem m)⟩

/-- Each container among some arguments was told to its slot. -/
def Furnished (history : List Moment) (g : Ref .gathering) (arguments : Array Value) : Prop :=
  ∀ k c, arguments[k]? = some (.container c) → ToldIn history (.gather g k) (.container c)

theorem Furnished.cons {history : List Moment} {g : Ref .gathering} {arguments : Array Value}
    (h : Furnished history g arguments) (m : Moment) : Furnished (m :: history) g arguments :=
  fun k c hk => (h k c hk).cons m

/-- Whether a callback was called with the results of a gathering. -/
def Moment.isCall : Moment → Bool
  | .gathering _ (.called ..) => true
  | _ => false

/-- **Each callback was called with what its slots had been told before.** -/
def CallsFurnished (history : List Moment) : Prop :=
  ∀ after before g f this arguments,
    history = after ++ .gathering g (.called f this arguments) :: before →
    Furnished before g arguments

theorem CallsFurnished.cons {history : List Moment} {m : Moment} (h : CallsFurnished history)
    (hm : ∀ g f this arguments, m = .gathering g (.called f this arguments) →
      Furnished history g arguments) : CallsFurnished (m :: history) := by
  intro after before g f this arguments he
  cases after with
  | nil =>
    obtain ⟨hcall, rfl⟩ := List.cons.inj he
    exact hm g f this arguments hcall
  | cons m' after =>
    obtain ⟨-, hrest⟩ := List.cons.inj he
    exact h after before g f this arguments hrest

/-! ### The invariant -/

/-- **What slots hold and callbacks get** was told to them, as far as it is a container. -/
structure Sourced (w : World) : Prop where
  slots : ∀ g x, w.gatherings.get? g = some x → Furnished w.history g x.slots
  calls : CallsFurnished w.history

namespace Sourced

variable {w w' : World}

theorem of_same (h : Sourced w) (hg : w'.gatherings = w.gatherings)
    (hh : w'.history = w.history) : Sourced w' := by
  refine ⟨fun g x hx => ?_, ?_⟩
  · rw [hg] at hx
    rw [hh]
    exact h.slots g x hx
  · rw [hh]
    exact h.calls

/-- Something happened that is no call. -/
theorem mark {m : Moment} (hm : m.isCall = false) (h : Sourced w) : Sourced (w.mark m) where
  slots g x hx := (h.slots g x hx).cons m
  calls := h.calls.cons fun g f this arguments he => by
    rw [he] at hm
    cases hm

/-- A callback is called with the slots of its gathering. -/
theorem called {g : Ref .gathering} {x : Gathering} (hx : w.gatherings.get? g = some x)
    (h : Sourced w) : Sourced (w.mark (.gathering g (.called x.callback x.this x.slots))) where
  slots g' x' hx' := (h.slots g' x' hx').cons _
  calls := h.calls.cons fun g' f this arguments he => by
    cases he
    exact h.slots g x hx

/-- The slots of a new gathering are empty. -/
theorem openGathering (n : Nat) (f : Ref .function) (this : Value) (script : String)
    (h : Sourced w) : Sourced (w.openGathering n f this script) := by
  refine mark rfl ⟨fun g x hx => ?_, h.calls⟩
  have hnew : (w.openGathering n f this script).gatherings.get? g = some x := hx
  rw [World.get?_openGathering] at hnew
  split at hnew
  · obtain rfl := Option.some.inj hnew
    intro k c hk
    have hslot : (Array.replicate n Value.undefined)[k]? = some (.container c) := hk
    rw [Array.getElem?_replicate] at hslot
    split at hslot <;> cases hslot
  · exact h.slots g x hnew

/-- A slot takes what it was told. -/
theorem arrive {g : Ref .gathering} {k : Nat} {v : Value}
    (hv : ∀ c, v = .container c → ToldIn w.history (.gather g k) v) (h : Sourced w) :
    Sourced (w.arrive g k v) := by
  refine mark rfl ⟨fun g' x' hx' => ?_, h.calls⟩
  have hupdate : (w.arrive g k v).gatherings.get? g' = some x' := hx'
  by_cases hg : g' = g
  · subst hg
    cases hx : w.gatherings.get? g' with
    | none =>
      have hnone : (w.arrive g' k v).gatherings.get? g' = none := by
        show (Table.update w.gatherings g' _).get? g' = _
        rw [Table.get?_update, if_pos rfl, hx]
        rfl
      rw [hnone] at hupdate
      cases hupdate
    | some x =>
      rw [World.get?_arrive hx] at hupdate
      obtain rfl := Option.some.inj hupdate
      intro j c hj
      -- a container in a slot is the one that has arrived, or stood there before
      have hset : (x.slots.setIfInBounds k v)[j]? = some (.container c) := hj
      rw [Array.getElem?_setIfInBounds] at hset
      split at hset
      · rename_i hjk
        subst hjk
        split at hset
        · obtain rfl := Option.some.inj hset
          exact hv c rfl
        · cases hset
      · exact h.slots g' x hx j c hset
  · rw [World.get?_arrive_of_ne hg] at hupdate
    exact h.slots g' x' hupdate

end Sourced

/-- What slots and callbacks get, as an invariant: a slot may be told what a container has told
it. -/
def sources : Invariant Unit where
  holds _ _ w := Sourced w
  lost := Sourced
  drains _ := True
  tells _ l v w := ∀ c, v = .container c → ToldIn w.history l v

theorem sources_completing (c : Ref .container) : Completing sources c where
  drop := id
  resolve _ _ hw := Sourced.mark rfl (hw.of_same rfl rfl)
  await _ _ hw := Sourced.mark rfl (hw.of_same rfl rfl)
  notice _ hw := Sourced.mark rfl hw
  told _ _ _ := ⟨c, .inl List.mem_cons_self⟩
  toldLate _ _ _ := ⟨c, .inr List.mem_cons_self⟩

theorem sources_queueing : Queueing sources where
  enqueue _ _ hw := Sourced.mark rfl (hw.of_same rfl rfl)
  idle _ _ := trivial
  begin _ hw := hw.of_same rfl rfl
  finish _ hw := hw.of_same rfl rfl
  dequeue _ hx hw := by
    obtain ⟨x, rest, _, _, rfl⟩ := World.dequeue_some hx
    exact Sourced.mark rfl (hw.of_same rfl rfl)
  finished _ _ _ hw := Sourced.mark rfl hw

/-- A slot takes what it is told, and the last one calls the callback. -/
theorem gather_sourced {m : Machine} (M : m.Keeps sources) (g : Ref .gathering) (k : Nat)
    (v : Value) :
    Run.Leads (fun w => Sourced w ∧ ∀ c, v = .container c → ToldIn w.history (.gather g k) v)
      (m.gather g k v) (fun _ => Sourced) Sourced := by
  refine Run.Leads.bind_change (R := Sourced) (fun w hw => hw.1.arrive hw.2) ?_
  refine Run.Leads.bind_read fun x => ?_
  cases x with
  | none => exact Run.Leads.pure fun w hw => hw.1
  | some x =>
    dsimp only
    split
    · refine Run.Leads.bind_mark (R := Sourced) (fun w hw => hw.1.called hw.2) ?_
      refine Run.Leads.bind_attempt (Run.Keeps.inName (M.call () [] _ _ _) fun _ _ => Sourced.mark rfl) fun r => ?_
      refine Run.Leads.bind_mark (R := Sourced) (fun w => Sourced.mark rfl) ?_
      refine Run.Keeps.bind Run.Keeps.ofExcept fun v => ?_
      exact (sources_completing x.container).complete M () [] v
    · exact Run.Leads.pure fun w hw => hw.1

/-- **Machines keep it.** -/
theorem sources_lawful : Lawful sources where
  toEvaluating := .of_shared (fun hs hw => hw.of_same hs.gatherings hs.history)
    (fun _ hw => Sourced.mark rfl hw) fun hw => Sourced.mark rfl hw
  drop := id
  lost := id
  aside hs hw := hw.of_same hs.gatherings hs.history
  call _ hw := Sourced.mark rfl hw
  newPending hw := hw.of_same rfl rfl
  newResolved _ hw := hw.of_same rfl rfl
  newNumbered hw := hw.of_same rfl rfl
  numbered _ := id
  routine _ := id
  openGathering n f this script := Sourced.openGathering n f this script
  forsake {i l hand w} hw := by
    cases l with
    | gather g k => exact Sourced.mark rfl hw
    | _ => exact hw
  clearQueue _ hw := Sourced.mark rfl (hw.of_same rfl rfl)
  dropContext _ hw := hw.of_same rfl rfl
  complete M i hand c v := (sources_completing c).complete M i hand v
  listen M i hand c l := (sources_completing c).listen M i hand l
  gather M _ _ g k v := gather_sourced M g k v
  schedule M i hand := sources_queueing.schedule M i hand
  drain M ht i hand := sources_queueing.drain M ht i hand
  tellsPlain hv _ c hc := absurd hc (hv c)

/-! ### Sessions -/

/-- **In a session slots and callbacks get what they were told.** -/
theorem Session.sourced {w : World} (h : Session w) : Sourced w := by
  induction h with
  | start => exact ⟨fun _ _ hx => absurd hx nofun, fun after _ _ _ _ _ he => by cases after <;> cases he⟩
  | arrange _ hs ih => exact ih.of_same hs.gatherings hs.history
  | clear c _ ih => exact Sourced.mark rfl (ih.of_same rfl rfl)
  | @act w w' d n _ _ hr ih =>
    exact (d.run_keeps sources_lawful (Machine.ofFuel_keeps sources_lawful n) () []).of_eq
      (r := .ok ()) ih hr

/-- A container that had no result when the moments of `after` were still to come. -/
def World.PendingBefore (w : World) (after : List Moment) (c : Ref .container) : Prop :=
  w.result? c = none ∨ ∃ v, .container c (.resolved v) ∈ after

/-- **Where the containers among the arguments of a callback come from.** Whatever the host and its
scripts do, each container that a callback of a `use` gets was told to its slot by a container that
had finished with it. So if no container has finished with one that is still pending, the callback
gets none that is. -/
theorem Machine.arguments_told {w w' : World} (hw : Session w) (d : Deed) (n : Nat)
    (hr : (d.run (ofFuel n) w).2 = w')
    {after before : List Moment} {g : Ref .gathering} {f : Ref .function} {this : Value}
    {arguments : Array Value}
    (hcall : w'.history = after ++ .gathering g (.called f this arguments) :: before) :
    (∀ (k : Nat) (c : Ref .container), arguments[k]? = some (.container c) →
      ToldIn before (.gather g k) (.container c)) ∧
    ((∀ l c, ToldIn before l (.container c) → ¬ w'.PendingBefore after c) →
      ∀ (k : Nat) (c : Ref .container), arguments[k]? = some (.container c) →
        ¬ w'.PendingBefore after c) := by
  have hsourced : Sourced w' := by
    rw [← hr]
    exact (d.run_keeps sources_lawful (Machine.ofFuel_keeps sources_lawful n) () []).of_all
      hw.sourced
  have htold : Furnished before g arguments := hsourced.calls after before g f this arguments hcall
  exact ⟨htold, fun hfinished k c hk => hfinished _ c (htold k c hk)⟩

/-! ### A page that gets a pending container -/

/-- An environment with a module whose `use` calls back to another `use`. -/
def layeredEnvironment : Environment where
  engine := .compiling
  resolver := { repository := ⟨.memory
    ⟨[⟨"/a.js", none, some "use(function () { return use(function () { return 1; }); })"⟩]⟩, []⟩ }
  providers := []

/-- A world with the page's `use` over this environment, and a function of the host's. -/
def World.ofLayers : World where
  functions := ⟨#[.use pageSite, .host ⟨"callback", none, none⟩]⟩
  heaps := ⟨#[{}]⟩
  contexts := ⟨#[{ heap := ⟨0⟩, holders := 1 }]⟩
  environments := ⟨#[layeredEnvironment]⟩

/-- A task in which the page asks for the module. -/
def askForLayers : Deed :=
  .schedule ⟨0⟩ (.timer .immediate ⟨0⟩ #[.text "/a.js", .function ⟨1⟩])

theorem Session.ofLayers : Session .ofLayers := by
  refine .arrange .start ⟨rfl, rfl, rfl, rfl, fun c => ?_⟩
  rcases c with ⟨_ | k⟩
  · rfl
  · rfl

theorem Moment.eq_of_taken? {m : Moment} {c : Ref .container} {v : Value}
    (h : m.taken? c = some v) : m = .container c (.resolved v) := by
  unfold taken? at h
  split at h
  · split at h
    · rename_i hc
      obtain rfl := Option.some.inj h
      rw [hc]
    · cases h
  · cases h

/-- Whether the last callback that was called got a container first that took its result later. -/
def World.calledEarly (w : World) : Bool :=
  match w.history.dropWhile (!·.isCall) with
  | .gathering _ (.called _ _ arguments) :: _ =>
    match (arguments[0]? : Option Value) with
    | some (.container c) => (w.history.takeWhile (!·.isCall)).any fun m => (m.taken? c).isSome
    | _ => false
  | _ => false

/-- The call of the page's callback, and the result that its argument takes later. -/
theorem layers_call : ∃ w' after before g f this arguments c,
    askForLayers.run (.ofFuel 16) .ofLayers = (.done (), w') ∧
    w'.history = after ++ .gathering g (.called f this arguments) :: before ∧
    arguments[0]? = some (.container c) ∧ ∃ v, .container c (.resolved v) ∈ after := by
  have hevaluated : (askForLayers.run (.ofFuel 16) .ofLayers).1.value? = some () ∧
      (askForLayers.run (.ofFuel 16) .ofLayers).2.calledEarly = true := by decide +kernel
  generalize hrun : askForLayers.run (.ofFuel 16) .ofLayers = r at hevaluated
  obtain ⟨outcome, w'⟩ := r
  obtain ⟨hdone, hcalled⟩ := hevaluated
  obtain rfl := Outcome.eq_done hdone
  unfold World.calledEarly at hcalled
  split at hcalled
  · rename_i g f this arguments before hcall
    split at hcalled
    · rename_i c hc
      obtain ⟨m, hm, htaken⟩ := List.any_eq_true.1 hcalled
      obtain ⟨v, hv⟩ := Option.isSome_iff_exists.1 htaken
      obtain rfl := Moment.eq_of_taken? hv
      refine ⟨w', _, before, g, f, this, arguments, c, rfl, ?_, hc, v, hm⟩
      rw [← hcall, List.takeWhile_append_dropWhile]
    · cases hcalled
  · cases hcalled

/-- The argument of this callback was told to its slot. -/
theorem arguments_told_for_layers : ∃ w' after before g f this arguments c,
    askForLayers.run (.ofFuel 16) .ofLayers = (.done (), w') ∧
    w'.history = after ++ .gathering g (.called f this arguments) :: before ∧
    arguments[0]? = some (.container c) ∧ ToldIn before (.gather g 0) (.container c) := by
  obtain ⟨w', after, before, g, f, this, arguments, c, hrun, hcall, hc, -⟩ := layers_call
  refine ⟨w', after, before, g, f, this, arguments, c, hrun, hcall, hc, ?_⟩
  have hreached : (askForLayers.run (.ofFuel 16) .ofLayers).2 = w' := by rw [hrun]
  exact (Machine.arguments_told Session.ofLayers askForLayers 16 hreached hcall).1 0 c hc

/-- **A callback gets a container that is still pending:** in this session it takes its result only
after the call. -/
theorem callback_gets_pending : ∃ (w w' : World) (d : Deed) (n : Nat) (after before : List Moment)
    (g : Ref .gathering) (f : Ref .function) (this : Value) (arguments : Array Value)
    (c : Ref .container), Session w ∧ d.run (.ofFuel n) w = (.done (), w') ∧
    w'.history = after ++ .gathering g (.called f this arguments) :: before ∧
    arguments[0]? = some (.container c) ∧ w'.PendingBefore after c := by
  obtain ⟨w', after, before, g, f, this, arguments, c, hrun, hcall, hc, hlater⟩ := layers_call
  exact ⟨.ofLayers, w', askForLayers, 16, after, before, g, f, this, arguments, c,
    Session.ofLayers, hrun, hcall, hc, .inr hlater⟩

end ScriptModules
