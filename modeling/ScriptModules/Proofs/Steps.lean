import ScriptModules.Proofs.Invariant

/-!
# The steps of queues, containers and gatherings

The laws of an invariant that concern whole operations (scheduling, draining, completing,
listening, gathering) follow from laws of the single steps that the operations take. `Queueing`,
`Completing` and `Collecting` list these steps. An invariant that says more of one operation than
its steps do proves the law of that operation directly instead.

A property of worlds that says nothing of the listeners in hand needs few of these laws; they are
put together in `Steady`. One of scopes and heaps needs none of them (`lawful_of_inert`).
-/

namespace ScriptModules

variable {ι : Type}

/-! ### Queues -/

/-- What an invariant must bear of queues. -/
structure Queueing (V : Invariant ι) : Prop where
  enqueue : ∀ {i hand w} c t, V.holds i (t.carried ++ hand) w → V.holds i hand (w.enqueue c t)
  /-- A queue that nobody drains may be drained. -/
  idle : ∀ {i hand w c}, V.holds i hand w → w.isRunning c = false → V.drains c
  begin : ∀ {i hand w c}, V.drains c → V.holds i hand w → V.holds i hand (w.beginDrain c)
  finish : ∀ {i hand w c}, V.drains c → V.holds i hand w → V.holds i hand (w.endDrain c)
  dequeue : ∀ {i hand w w' c t}, V.drains c → w.dequeue c = (some t, w') → V.holds i hand w →
    V.holds i (t.carried ++ hand) w'
  finished : ∀ {i hand w c} t r, V.drains c → V.holds i hand w →
    V.holds i hand (w.mark (.queue c (.finished t r)))

namespace Queueing

variable {V : Invariant ι} (S : Queueing V) {m : Machine} (M : m.Keeps V)

include S M

theorem schedule (i : ι) (hand : List Listener) (c : Ref .context) (t : Task) :
    Run.Leads (V.holds i (t.carried ++ hand)) (m.schedule c t) (fun _ => V.holds i hand) V.lost := by
  refine Run.Leads.bind_change (R := V.holds i hand) (fun w => S.enqueue c t) ?_
  refine Run.Leads.bind_read fun running => ?_
  cases running with
  | true => exact Run.Leads.pure fun w hw => hw.1
  | false =>
    -- the queue may be drained because nobody does; draining keeps the invariant from there on
    intro w hw
    have hd := S.idle hw.1 hw.2
    have drained : Run.Keeps (V.holds i hand) V.lost
        (do Run.change (·.beginDrain c); Run.andAlways (m.drain c) (·.endDrain c)) :=
      Run.Keeps.bind (Run.Leads.change fun w => S.begin hd) fun _ =>
        Run.Keeps.andAlways (M.drain i hand c hd) fun w => S.finish hd
    exact drained w hw.1

theorem drain (ht : ∀ i hand t, Run.Leads (V.holds i (t.carried ++ hand)) (m.runTask t)
      (fun _ => V.holds i hand) V.lost)
    (i : ι) (hand : List Listener) (c : Ref .context) (hd : V.drains c) :
    Run.Keeps (V.holds i hand) V.lost (Run.drainBy m.runTask m.drain c) := by
  -- the listeners of the next task are in hand, if there is a next task
  refine Run.Leads.bind_changeGet
    (R := fun next => V.holds i (next.elim [] Task.carried ++ hand)) (fun w hw => ?_)
    fun next => ?_
  · rcases hx : w.dequeue c with ⟨_ | t, w'⟩
    · rw [(World.dequeue_none hx).2]
      exact hw
    · exact S.dequeue hd hx hw
  · cases next with
    | none => exact Run.Keeps.pure
    | some t =>
      -- the task uses them up; the rest of the queue is drained whether it fails or not
      refine Run.Leads.bind_attempt (ht i hand t) fun first => ?_
      refine Run.Keeps.bind (Run.Leads.mark fun w => S.finished t first hd) fun _ => ?_
      exact Run.Keeps.bind (Run.Keeps.attempt (M.drain i hand c hd)) fun _ => Run.Keeps.ofExcept

end Queueing

/-! ### Containers -/

/-- Whether this only says that a listener was told, or what came of it. -/
def ContainerMoment.isNotice : ContainerMoment → Bool
  | .waited _ | .resolved _ => false
  | _ => true

/-- What an invariant must bear of a container. -/
structure Completing (V : Invariant ι) (c : Ref .container) : Prop where
  drop : ∀ {i l hand w}, V.holds i (l :: hand) w → V.holds i hand w
  resolve : ∀ {i hand w ls} v, w.container c = .pending ls → V.holds i (.complete c :: hand) w →
    V.holds i (ls ++ hand) (w.resolve c v)
  await : ∀ {i hand w ls} l, w.container c = .pending ls → V.holds i (l :: hand) w →
    V.holds i hand (w.await c ls l)
  notice : ∀ {i hand w k}, k.isNotice = true → V.holds i hand w →
    V.holds i hand (w.mark (.container c k))
  /-- A listener may be told what the container has noted to tell it. -/
  told : ∀ {i l hand w v}, V.holds i (l :: hand) w →
    V.tells i l v (w.mark (.container c (.told l v))) := by exact fun _ => trivial
  toldLate : ∀ {i l hand w v}, V.holds i (l :: hand) w →
    V.tells i l v (w.mark (.container c (.toldLate l v))) := by exact fun _ => trivial

namespace Completing

variable {V : Invariant ι} {c : Ref .container} (S : Completing V c) {m : Machine} (M : m.Keeps V)

include S M

theorem notifyAll (i : ι) (hand : List Listener) (v : Value) (ls : List Listener) :
    Run.Leads (V.holds i (ls ++ hand)) (Run.notifyAll m.notify c v ls) (fun _ => V.holds i hand)
      V.lost := by
  induction ls with
  | nil => exact Run.Keeps.pure
  | cons l rest ih =>
    -- `l` comes first in hand, and telling it uses it up
    refine Run.Leads.bind_mark
      (R := fun w => V.holds i (l :: (rest ++ hand)) w ∧ V.tells i l v w)
      (fun w hw => ⟨S.notice rfl hw, S.told hw⟩) ?_
    refine Run.Leads.bind_attempt (M.notify i (rest ++ hand) l v) fun first => ?_
    refine Run.Leads.bind_mark (R := V.holds i (rest ++ hand)) (fun w => S.notice rfl) ?_
    exact Run.Leads.bind ih (fun _ => Run.Keeps.pure) fun _ _ => id

/-- Completing a container, from worlds in which taking the result leads to the invariant. -/
theorem complete_from {P : World → Prop} (i : ι) (hand : List Listener) (v : Value)
    (hp : ∀ w ls, P w → w.container c = .pending ls → V.holds i (ls ++ hand) (w.resolve c v))
    (hr : ∀ w u, P w → w.container c = .resolved u → V.holds i hand w) :
    Run.Leads P (m.complete c v) (fun _ => V.holds i hand) V.lost := by
  refine Run.Leads.bind_read fun x => ?_
  cases x with
  -- a container that has a result refuses another, and nothing changes
  | resolved u => exact Run.Leads.fail fun w hw => hr w u hw.1 hw.2
  | pending ls =>
    -- its listeners are taken in hand before any of them is told
    refine Run.Leads.bind_change (R := V.holds i (ls ++ hand)) (fun w hw => hp w ls hw.1 hw.2) ?_
    refine Run.Leads.bind (S.notifyAll M i hand v ls) (fun result => ?_) fun _ _ => id
    exact Run.Keeps.bind (Run.Leads.mark fun w => S.notice rfl) fun _ => Run.Keeps.ofExcept

theorem complete (i : ι) (hand : List Listener) (v : Value) :
    Run.Leads (V.holds i (.complete c :: hand)) (m.complete c v) (fun _ => V.holds i hand)
      V.lost :=
  S.complete_from M i hand v (fun _ _ hw hc => S.resolve v hc hw) fun _ _ hw _ => S.drop hw

theorem listen (i : ι) (hand : List Listener) (l : Listener) :
    Run.Leads (V.holds i (l :: hand)) (m.listen c l) (fun _ => V.holds i hand) V.lost := by
  refine Run.Leads.bind_read fun x => ?_
  cases x with
  | pending ls => exact Run.Leads.change fun w hw => S.await l hw.2 hw.1
  -- it has its result: the listener is told at once, still in hand
  | resolved v =>
    refine Run.Leads.strengthen (P := V.holds i (l :: hand)) ?_ fun w => And.left
    refine Run.Leads.bind_mark (R := fun w => V.holds i (l :: hand) w ∧ V.tells i l v w)
      (fun w hw => ⟨S.notice rfl hw, S.toldLate hw⟩) ?_
    refine Run.Leads.bind_attempt (M.notify i hand l v) fun result => ?_
    exact Run.Keeps.bind (Run.Leads.mark fun w => S.notice rfl) fun _ => Run.Keeps.ofExcept

end Completing

/-! ### Properties that say nothing of the listeners in hand -/

/-- A family of properties of worlds, as an invariant. -/
def Invariant.plain (J : ι → World → Prop) (lost : World → Prop) (drains : Ref .context → Prop) :
    Invariant ι where
  holds i _ w := J i w
  lost := lost
  drains := drains

/-- Such a property lets listeners be told anything. -/
theorem Machine.Keeps.notify_plain {J : ι → World → Prop} {lost : World → Prop}
    {drains : Ref .context → Prop} {m : Machine} (M : m.Keeps (.plain J lost drains)) (i : ι)
    (l : Listener) (v : Value) : Run.Keeps (J i) lost (m.notify l v) :=
  (M.notify i [] l v).strengthen fun _ hw => ⟨hw, trivial⟩

/-- **A family of properties that every single step keeps,** apart from those of containers. -/
structure Steady (J : ι → World → Prop) (lost : World → Prop) (drains : Ref .context → Prop) :
    Prop where
  lost : ∀ {i w}, J i w → lost w
  aside : ∀ {i w w'}, World.Aside w w' → J i w → J i w'
  call : ∀ {i w} k, J i w → J i (w.mark (.call k))
  gathering : ∀ {i w} g k, J i w → J i (w.mark (.gathering g k))
  addContainer : ∀ {i w} x, J i w → J i (w.addContainer x)
  number : ∀ {i w} c, J i w → J i (w.number c)
  openGathering : ∀ {i w} n f this script, J i w → J i (w.openGathering n f this script)
  arrive : ∀ {i w} g slot v, J i w → J i (w.arrive g slot v)
  enqueue : ∀ {i w} c t, J i w → J i (w.enqueue c t)
  idle : ∀ {i w c}, J i w → w.isRunning c = false → drains c
  begin : ∀ {i w c}, drains c → J i w → J i (w.beginDrain c)
  finish : ∀ {i w c}, drains c → J i w → J i (w.endDrain c)
  dequeue : ∀ {i w w' c t}, drains c → w.dequeue c = (some t, w') → J i w → J i w'
  finished : ∀ {i w c} t r, drains c → J i w → J i (w.mark (.queue c (.finished t r)))
  clearQueue : ∀ {i w} c, J i w → J i (w.clearQueue c)
  dropContext : ∀ {i w} c, J i w → J i (w.dropContext c)

namespace Steady

variable {J : ι → World → Prop} {lost : World → Prop} {drains : Ref .context → Prop}
  (S : Steady J lost drains)

include S

theorem queueing : Queueing (.plain J lost drains) where
  enqueue := S.enqueue
  idle := S.idle
  begin := S.begin
  finish := S.finish
  dequeue := S.dequeue
  finished := S.finished

/-- Calling a callback with all results keeps it if completing containers does. -/
theorem callGathered {m : Machine} (M : m.Keeps (.plain J lost drains))
    (complete : ∀ i c v, Run.Keeps (J i) lost (m.complete c v)) (i : ι) (g : Ref .gathering)
    (x : Gathering) : Run.Keeps (J i) lost (m.callGathered g x) := by
  refine Run.Keeps.bind (Run.Leads.mark fun w => S.gathering g _) fun _ => ?_
  refine Run.Keeps.bind (Run.Keeps.attempt
    (Run.Keeps.inName (M.call i [] _ _ _) fun _ _ => S.call _)) fun r => ?_
  refine Run.Keeps.bind (Run.Leads.mark fun w => S.gathering g _) fun _ => ?_
  exact Run.Keeps.bind Run.Keeps.ofExcept fun v => complete i _ v

/-- It is kept by machines as soon as evaluation and the operations on containers keep it. -/
theorem lawful (evaluating : Evaluating (.plain J lost drains))
    (complete : ∀ {m : Machine}, m.Keeps (.plain J lost drains) → ∀ i c v,
      Run.Keeps (J i) lost (m.complete c v))
    (listen : ∀ {m : Machine}, m.Keeps (.plain J lost drains) → ∀ i c l,
      Run.Keeps (J i) lost (m.listen c l)) :
    Lawful (.plain J lost drains) where
  toEvaluating := evaluating
  drop := id
  lost := S.lost
  aside := S.aside
  call := S.call
  newPending := S.addContainer _
  newResolved v := S.addContainer _
  newNumbered hw := S.number _ (S.addContainer _ hw)
  numbered _ := id
  routine _ := id
  openGathering := S.openGathering
  forsake {i l hand w} hw := by
    cases l with
    -- a module that fails is remembered by its gathering, and by nothing else
    | gather g slot => exact S.gathering g _ hw
    | _ => exact hw
  clearQueue := S.clearQueue
  dropContext := S.dropContext
  complete M i _ := complete M i
  listen M i _ := listen M i
  gather {m} M i _ g slot v := by
    refine Run.Leads.strengthen (P := J i) ?_ fun w => And.left
    refine Run.Keeps.bind (Run.Leads.change fun w => S.arrive g slot v) fun _ => ?_
    refine Run.Keeps.bind Run.Keeps.read fun x => ?_
    split
    · split
      -- the last result has come
      · exact S.callGathered M (complete M) i g _
      · exact Run.Keeps.pure
    · exact Run.Keeps.pure
  schedule M i hand := S.queueing.schedule M i hand
  drain M ht i hand := S.queueing.drain M ht i hand

/-- The same from the single steps of containers. -/
theorem lawful_of_steps (evaluating : Evaluating (.plain J lost drains))
    (resolve : ∀ {i w} c v, J i w → J i (w.resolve c v))
    (await : ∀ {i w} c ls l, J i w → J i (w.await c ls l))
    (notice : ∀ {i w} c k, J i w → J i (w.mark (.container c k))) :
    Lawful (.plain J lost drains) := by
  have C : ∀ c, Completing (.plain J lost drains) c := fun c =>
    { drop := id
      resolve := fun v _ => resolve c v
      await := fun l _ => await c _ l
      notice := fun _ => notice c _ }
  exact S.lawful evaluating (fun M i c => (C c).complete M i []) fun M i c => (C c).listen M i []

end Steady

/-! ### Properties of scopes and heaps -/

/-- **A property that inert changes keep** is kept by machines as soon as evaluation keeps it: apart
from evaluation nothing that machines do touches scopes and heaps or makes closures. -/
theorem lawful_of_inert {J : ι → World → Prop} {lost : World → Prop}
    (hlost : ∀ {i w}, J i w → lost w) (inert : ∀ {i w w'}, World.Inert w w' → J i w → J i w')
    (evaluating : Evaluating (.plain J lost fun _ => True)) :
    Lawful (.plain J lost fun _ => True) := by
  have same : ∀ {i : ι} {w w' : World}, w'.scopes = w.scopes → w'.heaps = w.heaps →
      w'.functions = w.functions → w'.cells = w.cells → J i w → J i w' := fun hs hh hf hc =>
    inert (.of_same hs hh hf hc)
  refine Steady.lawful_of_steps ?_ evaluating (fun _ _ => same rfl rfl rfl rfl)
    (fun _ _ _ => same rfl rfl rfl rfl) fun _ _ => same rfl rfl rfl rfl
  exact
    { lost := hlost
      aside := fun hs => inert hs.toInert
      call := fun _ => same rfl rfl rfl rfl
      gathering := fun _ _ => same rfl rfl rfl rfl
      addContainer := fun _ => same rfl rfl rfl rfl
      number := fun _ => same rfl rfl rfl rfl
      openGathering := fun _ _ _ _ => same rfl rfl rfl rfl
      arrive := fun _ _ _ => same rfl rfl rfl rfl
      enqueue := fun _ _ => same rfl rfl rfl rfl
      idle := fun _ _ => trivial
      begin := fun _ => same rfl rfl rfl rfl
      finish := fun _ => same rfl rfl rfl rfl
      dequeue := fun _ hx => by
        obtain ⟨x, rest, _, _, rfl⟩ := World.dequeue_some hx
        exact same rfl rfl rfl rfl
      finished := fun _ _ _ => same rfl rfl rfl rfl
      clearQueue := fun _ => same rfl rfl rfl rfl
      dropContext := fun _ => same rfl rfl rfl rfl }

/-! ### What a longer history keeps -/

/-- **What a history has, a longer one has too.** -/
theorem steady_of_history {H : List Moment → Prop} (hH : ∀ m h, H h → H (m :: h)) :
    Steady (fun (_ : Unit) w => H w.history) (fun w => H w.history) fun _ => True where
  lost := id
  aside h hw := by rwa [h.history]
  call _ := hH _ _
  gathering _ _ := hH _ _
  addContainer _ := id
  number _ := id
  openGathering _ _ _ _ := hH _ _
  arrive _ _ _ := hH _ _
  enqueue _ _ := hH _ _
  idle _ _ := trivial
  begin _ := id
  finish _ := id
  dequeue _ hx hw := by
    obtain ⟨x, rest, _, _, rfl⟩ := World.dequeue_some hx
    exact hH _ _ hw
  finished _ _ _ := hH _ _
  clearQueue _ := hH _ _
  dropContext _ := id

/-- So it is kept by all machines, whether they end or not. -/
theorem lawful_of_history {H : List Moment → Prop} (hH : ∀ m h, H h → H (m :: h)) :
    Lawful (.plain (fun (_ : Unit) w => H w.history) (fun w => H w.history) fun _ => True) :=
  (steady_of_history hH).lawful_of_steps
    (.of_shared (fun hs hw => (congrArg H hs.history).mpr hw) (fun _ => hH _ _) (hH _ _))
    (fun _ _ => hH _ _) (fun _ _ _ => hH _ _) fun _ _ => hH _ _

end ScriptModules
