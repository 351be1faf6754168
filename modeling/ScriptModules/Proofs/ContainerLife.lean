import ScriptModules.Proofs.HostRuns

/-!
# The life of a container

What a container goes through, as a list of moments: listeners begin to wait; at most once it takes
a result, and then those that wait are told one after the other and the completion is settled with
their first error (`Told`); and listeners that come later are told at once (`Late`). While one
listener is being told, others may come, so notices of the second kind stand inside those of the
first and inside each other. `Container.Grows` puts this together, relative to a state from which
one looks on, and `Container.Grows.trans` lets it be followed through a run.

`life_lawful` carries the law through every activity of a machine. The operation that completes the
container itself is not taken step by step here, since between its first and its last step the
moments are not yet balanced: what its listeners do in between is again a piece of the same life.
-/

namespace ScriptModules

/-! ### The moments of one container -/

/-- The moment of a container in something that happened. -/
def Moment.ofContainer? (c : Ref .container) : Moment → Option ContainerMoment
  | .container c' m => if c' = c then some m else none
  | _ => none

/-- What happened to a container, in order. -/
def World.containerHistory (w : World) (c : Ref .container) : List ContainerMoment :=
  w.moments (Moment.ofContainer? c)

theorem World.containerHistory_mark (w : World) (c : Ref .container) (m : Moment) :
    (w.mark m).containerHistory c = w.containerHistory c ++ (m.ofContainer? c).toList :=
  w.moments_mark _ m

theorem World.containerHistory_mark_self (w : World) (c : Ref .container) (m : ContainerMoment) :
    (w.mark (.container c m)).containerHistory c = w.containerHistory c ++ [m] := by
  rw [containerHistory_mark, Moment.ofContainer?, if_pos rfl]
  rfl

/-! ### What a container can go through -/

/-- **Late notices:** each listener is told when it comes, and answers before it is over. What it
does meanwhile may bring further listeners. -/
inductive Late (v : Value) : List ContainerMoment → Prop where
  | nil : Late v []
  | cons {inner rest} (l : Listener) (r : Except HostError Unit) : Late v inner → Late v rest →
    Late v (.toldLate l v :: inner ++ .answeredLate l r :: rest)

/-- **The listeners that waited are told in order,** each once, and each answers before the next
one is told, whatever it answers. -/
inductive Told (v : Value) :
    List Listener → List (Except HostError Unit) → List ContainerMoment → Prop where
  | nil : Told v [] [] []
  | cons {inner ls rs rest} (l : Listener) (r : Except HostError Unit) : Late v inner →
    Told v ls rs rest → Told v (l :: ls) (r :: rs) (.told l v :: inner ++ .answered l r :: rest)

/-- **What a container goes through** from one state to another. -/
inductive Container.Grows : Container → List ContainerMoment → Container → Prop where
  | waiting (ls more : List Listener) :
    Grows (.pending ls) (more.map .waited) (.pending (ls ++ more))
  | resolving {v rs told late} (ls more : List Listener) : Told v (ls ++ more) rs told →
    Late v late →
    Grows (.pending ls) (more.map .waited ++ .resolved v :: told ++ .settled (firstOf rs) :: late)
      (.resolved v)
  | late {v ms} : Late v ms → Grows (.resolved v) ms (.resolved v)

namespace Late

variable {v : Value}

theorem append {ms ms' : List ContainerMoment} (h : Late v ms) (h' : Late v ms') :
    Late v (ms ++ ms') := by
  induction h with
  | nil => exact h'
  | @cons inner rest l r hi _ _ ih =>
    have := Late.cons l r hi ih
    simpa using this

end Late

namespace Container.Grows

theorem refl (x : Container) : Grows x [] x := by
  cases x with
  | pending ls => simpa using Grows.waiting ls []
  | resolved v => exact .late .nil

/-- A life can be followed piece by piece. -/
theorem trans {x y z : Container} {ms ms' : List ContainerMoment} (h : Grows x ms y)
    (h' : Grows y ms' z) : Grows x (ms ++ ms') z := by
  -- the state in the middle says which piece can follow which
  cases h with
  | waiting ls more =>
    cases h' with
    | waiting _ more' =>
      rw [← List.map_append, List.append_assoc]
      exact .waiting ls (more ++ more')
    | resolving _ more' ht hl =>
      have := Grows.resolving ls (more ++ more') (by rwa [← List.append_assoc]) hl
      simpa using this
  | resolving ls more ht hl =>
    cases h' with
    | late hl' =>
      have := Grows.resolving ls more ht (hl.append hl')
      simpa using this
  | late hl =>
    cases h' with
    | late hl' => exact .late (hl.append hl')

theorem late_of_resolved {v : Value} {ms : List ContainerMoment} {y : Container}
    (h : Grows (.resolved v) ms y) : y = .resolved v ∧ Late v ms := by
  cases h with
  | late hl => exact ⟨rfl, hl⟩

end Container.Grows

/-! ### The invariant -/

/-- What was known of a container when one began to look on: its moments so far, and its state. -/
structure Glimpse where
  past : List ContainerMoment
  state : Container

/-- **Since the glimpse** the container has gone through what a container can go through. -/
structure LivesOn (c : Ref .container) (start : Glimpse) (w : World) : Prop where
  exist : w.containers.get? c = some (w.container c)
  grows : ∃ ms, w.containerHistory c = start.past ++ ms ∧ start.state.Grows ms (w.container c)

/-- A glimpse of a container in a world. -/
def World.glimpse (w : World) (c : Ref .container) : Glimpse := ⟨w.containerHistory c, w.container c⟩

namespace LivesOn

variable {c c' : Ref .container} {start : Glimpse} {w w' : World}

theorem glimpse (h : w.containers.get? c = some (w.container c)) : LivesOn c (w.glimpse c) w :=
  ⟨h, [], (List.append_nil _).symm, .refl _⟩

theorem trans (h : LivesOn c start w) (h' : LivesOn c (w.glimpse c) w') : LivesOn c start w' := by
  obtain ⟨ms, hh, hg⟩ := h.grows
  obtain ⟨ms', hh', hg'⟩ := h'.grows
  refine ⟨h'.exist, ms ++ ms', ?_, hg.trans hg'⟩
  rw [hh', World.glimpse, hh, List.append_assoc]

/-- What does not touch the container does not matter. -/
theorem of_same (h : LivesOn c start w) (hh : w'.containerHistory c = w.containerHistory c)
    (hc : w'.containers.get? c = w.containers.get? c) : LivesOn c start w' := by
  have hx : w'.container c = w.container c := by rw [World.container, World.container, hc]
  exact ⟨by rw [hc, hx, h.exist], by rw [hh, hx]; exact h.grows⟩

theorem mark {m : Moment} (hm : m.ofContainer? c = none) (h : LivesOn c start w) :
    LivesOn c start (w.mark m) :=
  h.of_same (by rw [World.containerHistory_mark, hm]; exact List.append_nil _) rfl

theorem addContainer (x : Container) (h : LivesOn c start w) : LivesOn c start (w.addContainer x) :=
  h.of_same rfl ((Table.get?_add_of_get?_eq_some x h.exist).trans h.exist.symm)

end LivesOn

theorem Moment.ofContainer?_of_ne {c c' : Ref .container} (h : c' ≠ c) (m : ContainerMoment) :
    Moment.ofContainer? c (.container c' m) = none :=
  if_neg h

/-- The world with another container changed. -/
theorem World.get?_setContainer_of_ne {c c' : Ref .container} (h : c' ≠ c) (w : World)
    (x : Container) : (w.setContainer c' x).containers.get? c = w.containers.get? c := by
  rw [setContainer, Table.set, Table.get?_update, if_neg h]

theorem World.get?_setContainer {c : Ref .container} {w : World} {y : Container}
    (h : w.containers.get? c = some y) (x : Container) :
    (w.setContainer c x).containers.get? c = some x := by
  rw [setContainer, Table.set, Table.get?_update, if_pos rfl, h]
  rfl

theorem World.container_eq {c : Ref .container} {w : World} {y : Container}
    (h : w.containers.get? c = some y) : w.container c = y := by
  rw [container, h]
  rfl

/-- The steps of other containers. -/
theorem life_completing_other {c c' : Ref .container} (h : c' ≠ c) :
    Completing (.plain (LivesOn c) (fun _ => True) fun _ => True) c' where
  drop := id
  resolve _ _ hw := LivesOn.mark (Moment.ofContainer?_of_ne h _)
    (hw.of_same rfl (World.get?_setContainer_of_ne h _ _))
  await _ _ hw := LivesOn.mark (Moment.ofContainer?_of_ne h _)
    (hw.of_same rfl (World.get?_setContainer_of_ne h _ _))
  notice _ hw := LivesOn.mark (Moment.ofContainer?_of_ne h _) hw

namespace LivesOn

variable {c : Ref .container} {ε α : Type}

/-- What a run does that keeps every life comes late, if the container has its result. -/
theorem late {x : Run ε α} (hx : ∀ start, Run.Keeps (LivesOn c start) (fun _ => True) x)
    (past : List ContainerMoment) (v : Value) :
    Run.Leads
      (fun w => w.containerHistory c = past ∧ w.containers.get? c = some (.resolved v)) x
      (fun _ w => ∃ inner, Late v inner ∧ w.containerHistory c = past ++ inner ∧
        w.containers.get? c = some (.resolved v))
      fun _ => True := by
  -- look on from this world: what follows is a life that begins with the result
  rintro w ⟨hp, hc⟩
  have hw := World.container_eq hc
  have hl : LivesOn c ⟨past, .resolved v⟩ w :=
    ⟨by rw [hw, hc], [], by rw [hp, List.append_nil], by rw [hw]; exact .refl _⟩
  have after : ∀ w', LivesOn c ⟨past, .resolved v⟩ w' → ∃ inner, Late v inner ∧
      w'.containerHistory c = past ++ inner ∧ w'.containers.get? c = some (.resolved v) := by
    intro w' hl'
    obtain ⟨ms, hh, hg⟩ := hl'.grows
    obtain ⟨hr, hm⟩ := hg.late_of_resolved
    exact ⟨ms, hm, hh, by rw [hl'.exist, hr]⟩
  exact (hx ⟨past, .resolved v⟩).weaken (fun _ => after) w hl

end LivesOn

section

variable {c : Ref .container} {m : Machine}
  (M : ∀ start l v, Run.Keeps (LivesOn c start) (fun _ => True) (m.notify l v))

include M

/-- **The listeners that waited are told in order.** -/
theorem notifyAll_told (v : Value) (ls : List Listener) (past : List ContainerMoment) :
    Run.Leads
      (fun w => w.containerHistory c = past ∧ w.containers.get? c = some (.resolved v))
      (Run.notifyAll m.notify c v ls)
      (fun r w => ∃ rs told, r = .ok (firstOf rs) ∧ Told v ls rs told ∧
        w.containerHistory c = past ++ told ∧ w.containers.get? c = some (.resolved v))
      fun _ => True := by
  induction ls generalizing past with
  | nil =>
    refine Run.Leads.pure fun w hw => ?_
    exact ⟨[], [], rfl, .nil, by rw [hw.1, List.append_nil], hw.2⟩
  | cons l rest ih =>
    -- `l` is told first; while it runs, only late notices come
    refine Run.Leads.bind_mark (R := fun w =>
        w.containerHistory c = past ++ [.told l v] ∧ w.containers.get? c = some (.resolved v))
      (fun w hw => ⟨?_, hw.2⟩) ?_
    · rw [World.containerHistory_mark_self, hw.1]
    refine Run.Leads.bind_attempt
      (LivesOn.late (fun start => M start l v) _ v) fun first => ?_
    refine Run.Leads.of_exists fun inner => Run.Leads.of_fact fun hi => ?_
    -- the listener has answered; the others are told after what it did
    refine Run.Leads.bind_mark (R := fun w =>
        w.containerHistory c = past ++ (.told l v :: inner ++ [.answered l first]) ∧
        w.containers.get? c = some (.resolved v))
      (fun w hw => ⟨?_, hw.2⟩) ?_
    · rw [World.containerHistory_mark_self, hw.1]
      simp only [List.append_assoc, List.cons_append, List.nil_append]
    refine Run.Leads.bind (ih _) (fun others => ?_) ?_
    · refine Run.Leads.pure fun w hw => ?_
      obtain ⟨rs, told, he, ht, hh, hc⟩ := hw
      cases he
      refine ⟨first :: rs, _, ?_, .cons l first hi ht, ?_, hc⟩
      · rw [firstError_firstOf]
      · rw [hh]
        simp only [List.append_assoc, List.cons_append, List.nil_append]
    · rintro e w ⟨rs, told, he, _⟩
      cases he

/-- **Completing a container** that has no result tells those that wait, and comes to their first
error. -/
theorem complete_told (v : Value) (ls : List Listener) (past : List ContainerMoment) :
    Run.Leads
      (fun w => w.containerHistory c = past ∧ w.containers.get? c = some (.pending ls))
      (m.complete c v)
      (fun r w => ∃ rs told, r = firstOf rs ∧ Told v ls rs told ∧
        w.containerHistory c = past ++ .resolved v :: told ++ [.settled (firstOf rs)] ∧
        w.containers.get? c = some (.resolved v))
      fun _ => True := by
  refine Run.Leads.bind_read fun x => ?_
  refine Run.Leads.known (fun w hw => hw.2.symm.trans (World.container_eq hw.1.2)) fun hx => ?_
  subst hx
  -- the result is there before anybody is told
  refine Run.Leads.bind_change (R := fun w =>
      w.containerHistory c = past ++ [.resolved v] ∧ w.containers.get? c = some (.resolved v))
    (fun w hw => ⟨?_, World.get?_setContainer hw.1.2 _⟩) ?_
  · rw [World.resolve, World.containerHistory_mark_self]
    exact congrArg (· ++ _) hw.1.1
  refine Run.Leads.bind (notifyAll_told M v ls _) (fun result => ?_) ?_
  · refine Run.Leads.of_exists fun rs => Run.Leads.of_exists fun told => ?_
    refine Run.Leads.of_fact fun he => Run.Leads.of_fact fun ht => ?_
    cases he
    refine Run.Leads.bind_mark (R := fun w =>
        w.containerHistory c = past ++ .resolved v :: told ++ [.settled (firstOf rs)] ∧
        w.containers.get? c = some (.resolved v))
      (fun w hw => ⟨?_, hw.2⟩) ?_
    · rw [World.containerHistory_mark_self, hw.1]
      simp only [List.append_assoc, List.cons_append, List.nil_append]
    · exact Run.Leads.ofExcept fun w hw => ⟨rs, told, rfl, ht, hw.1, hw.2⟩
  · rintro e w ⟨rs, told, he, _⟩
    cases he

/-- **Listening to a container** that has its result tells the listener at once. -/
theorem listen_toldLate (l : Listener) (v : Value) (past : List ContainerMoment) :
    Run.Leads
      (fun w => w.containerHistory c = past ∧ w.containers.get? c = some (.resolved v))
      (m.listen c l)
      (fun r w => ∃ inner, Late v inner ∧
        w.containerHistory c = past ++ .toldLate l v :: inner ++ [.answeredLate l r] ∧
        w.containers.get? c = some (.resolved v))
      fun _ => True := by
  refine Run.Leads.bind_read fun x => ?_
  refine Run.Leads.known (fun w hw => hw.2.symm.trans (World.container_eq hw.1.2)) fun hx => ?_
  subst hx
  refine Run.Leads.bind_mark (R := fun w =>
      w.containerHistory c = past ++ [.toldLate l v] ∧ w.containers.get? c = some (.resolved v))
    (fun w hw => ⟨?_, hw.1.2⟩) ?_
  · rw [World.containerHistory_mark_self, hw.1.1]
  -- the listener may bring others, that are told inside its notice
  refine Run.Leads.bind_attempt
    (LivesOn.late (fun start => M start l v) _ v) fun result => ?_
  refine Run.Leads.of_exists fun inner => Run.Leads.of_fact fun hi => ?_
  refine Run.Leads.bind_mark (R := fun w =>
      w.containerHistory c = past ++ .toldLate l v :: inner ++ [.answeredLate l result] ∧
      w.containers.get? c = some (.resolved v))
    (fun w hw => ⟨?_, hw.2⟩) ?_
  · rw [World.containerHistory_mark_self, hw.1]
    simp only [List.append_assoc, List.cons_append, List.nil_append]
  · exact Run.Leads.ofExcept fun w hw => ⟨inner, hi, hw.1, hw.2⟩

end

/-- Completing the container itself is a piece of its life. -/
theorem life_complete {c : Ref .container} {m : Machine}
    (M : m.Keeps (.plain (LivesOn c) (fun _ => True) fun _ => True)) (start : Glimpse) (v : Value) :
    Run.Keeps (LivesOn c start) (fun _ => True) (m.complete c v) := by
  intro w hw
  cases hx : w.container c with
  | resolved u =>
    rw [Machine.complete, Run.completeBy_resolved hx]
    exact hw
  | pending ls =>
    -- taken as a whole, the completion is one piece of a life
    have told := complete_told M.notify_plain v ls (w.containerHistory c)
    have kept : Run.Leads _ (m.complete c v) (fun _ => LivesOn c start) _ := told.weaken <| by
      rintro r w' ⟨rs, told, rfl, ht, hh, hc⟩
      have hx' := World.container_eq hc
      refine hw.trans ⟨by rw [hc, hx'], _, hh.trans (List.append_assoc _ _ _), ?_⟩
      rw [World.glimpse, hx, hx']
      exact .resolving ls [] (by rwa [List.append_nil]) .nil
    exact kept w ⟨rfl, by rw [hw.exist, hx]⟩

/-- Listening to the container itself is a piece of its life. -/
theorem life_listen {c : Ref .container} {m : Machine}
    (M : m.Keeps (.plain (LivesOn c) (fun _ => True) fun _ => True)) (start : Glimpse) (l : Listener) :
    Run.Keeps (LivesOn c start) (fun _ => True) (m.listen c l) := by
  intro w hw
  cases hx : w.container c with
  | pending ls =>
    rw [Machine.listen, Run.addListener_pending hx]
    have hc : (w.await c ls l).containers.get? c = some (.pending (ls ++ [l])) :=
      World.get?_setContainer hw.exist _
    have hx' := World.container_eq hc
    refine hw.trans ⟨by rw [hc, hx'], [.waited l], World.containerHistory_mark_self _ _ _, ?_⟩
    rw [World.glimpse, hx, hx']
    exact .waiting ls [l]
  | resolved v =>
    have told := listen_toldLate M.notify_plain l v (w.containerHistory c)
    have kept : Run.Leads _ (m.listen c l) (fun _ => LivesOn c start) _ := told.weaken <| by
      rintro r w' ⟨inner, hi, hh, hc⟩
      have hx' := World.container_eq hc
      refine hw.trans ⟨by rw [hc, hx'], _, hh.trans (List.append_assoc _ _ _), ?_⟩
      rw [World.glimpse, hx, hx']
      exact .late (.cons l r hi .nil)
    exact kept w ⟨rfl, by rw [hw.exist, hx]⟩

/-- **Containers go through what a container can go through,** whatever a machine does. -/
theorem life_lawful (c : Ref .container) : Lawful (.plain (LivesOn c) (fun _ => True) fun _ => True) := by
  have shared : ∀ {start w w'}, World.SameShared w w' → LivesOn c start w → LivesOn c start w' :=
    fun hs h => h.of_same
      (by
        rw [World.containerHistory, World.moments, hs.history]
        rfl)
      (by rw [hs.containers])
  refine Steady.lawful ?_ (.of_shared shared (fun _ => LivesOn.mark rfl) fun _ => trivial) (fun {m} M start c' v => ?_)
    fun {m} M start c' l => ?_
  · exact
      { lost := fun _ => trivial
        aside := fun hs => shared hs.toSameShared
        call := fun _ => LivesOn.mark rfl
        gathering := fun _ _ => LivesOn.mark rfl
        addContainer := fun x h => h.addContainer x
        number := fun _ h => h.of_same rfl rfl
        openGathering := fun _ _ _ _ h =>
          LivesOn.mark rfl ((h.addContainer (.pending [])).of_same rfl rfl)
        arrive := fun _ _ _ h => LivesOn.mark rfl (h.of_same rfl rfl)
        enqueue := fun _ _ h => LivesOn.mark rfl (h.of_same rfl rfl)
        idle := fun _ _ => trivial
        begin := fun _ h => h.of_same rfl rfl
        finish := fun _ h => h.of_same rfl rfl
        dequeue := fun _ hx h => by
          obtain ⟨x, rest, _, _, rfl⟩ := World.dequeue_some hx
          exact LivesOn.mark rfl (h.of_same rfl rfl)
        finished := fun _ _ _ => LivesOn.mark rfl
        clearQueue := fun _ h => LivesOn.mark rfl (h.of_same rfl rfl)
        dropContext := fun _ h => h.of_same rfl rfl }
  -- the container itself, or another one
  · by_cases hc : c' = c
    · subst hc
      exact life_complete M start v
    · exact (life_completing_other hc).complete M start [] v
  · by_cases hc : c' = c
    · subst hc
      exact life_listen M start l
    · exact (life_completing_other hc).listen M start [] l

/-! ### What follows for a container that was new -/

section

variable (ms : List ContainerMoment)

/-- The results that the container took. -/
def resolvedIn : List Value := ms.filterMap fun | .resolved v => some v | _ => none

/-- The listeners that came before the result, in order. -/
def waitedIn : List Listener := ms.filterMap fun | .waited l => some l | _ => none

/-- All listeners that came, in order. -/
def registeredIn : List Listener :=
  ms.filterMap fun | .waited l => some l | .toldLate l _ => some l | _ => none

/-- Who was told what, in order. -/
def toldIn : List (Listener × Value) :=
  ms.filterMap fun | .told l v => some (l, v) | .toldLate l v => some (l, v) | _ => none

/-- The listeners that had waited and were told, in order. -/
def toldWaitingIn : List Listener := ms.filterMap fun | .told l _ => some l | _ => none

/-- What those that had waited answered, in order. -/
def answeredIn : List (Except HostError Unit) :=
  ms.filterMap fun | .answered _ r => some r | _ => none

/-- What completions came to. -/
def settledIn : List (Except HostError Unit) :=
  ms.filterMap fun | .settled r => some r | _ => none

end

/-- **What a container that was new has gone through** when it is in some state. -/
structure Container.OneShot (ms : List ContainerMoment) (x : Container) : Prop where
  /-- At most one completion took effect, and the result is what it brought. -/
  resolved : resolvedIn ms = x.result?.toList
  /-- Without a result nobody was told anything. -/
  silent : x.result? = none → toldIn ms = []
  /-- Everyone who came was told the result, and once. -/
  told : ∀ v, x.result? = some v → (toldIn ms).Perm ((registeredIn ms).map fun l => (l, v))
  /-- Those that had waited were told in the order in which they came. -/
  inOrder : ∀ v, x.result? = some v → toldWaitingIn ms = waitedIn ms
  /-- All of them answered, and the completion came to the first error among the answers. -/
  settled : ∀ v, x.result? = some v →
    (answeredIn ms).length = (waitedIn ms).length ∧ settledIn ms = [firstOf (answeredIn ms)]

/-- Late notices, in numbers. -/
theorem Late.summary {v : Value} {ms : List ContainerMoment} (h : Late v ms) :
    resolvedIn ms = [] ∧ waitedIn ms = [] ∧ toldWaitingIn ms = [] ∧ answeredIn ms = [] ∧
      settledIn ms = [] ∧ toldIn ms = (registeredIn ms).map fun l => (l, v) := by
  induction h with
  | nil => exact ⟨rfl, rfl, rfl, rfl, rfl, rfl⟩
  | cons l r _ _ ih₁ ih₂ =>
    simp only [resolvedIn, waitedIn, toldWaitingIn, answeredIn, settledIn, toldIn, registeredIn]
      at ih₁ ih₂ ⊢
    simp [ih₁, ih₂]

/-- The notices of those that had waited, in numbers. -/
theorem Told.summary {v : Value} {ls : List Listener} {rs : List (Except HostError Unit)}
    {ms : List ContainerMoment} (h : Told v ls rs ms) :
    resolvedIn ms = [] ∧ waitedIn ms = [] ∧ toldWaitingIn ms = ls ∧ answeredIn ms = rs ∧
      settledIn ms = [] ∧ rs.length = ls.length ∧
      (toldIn ms).Perm ((ls ++ registeredIn ms).map fun l => (l, v)) := by
  induction h with
  | nil => exact ⟨rfl, rfl, rfl, rfl, rfl, rfl, .refl _⟩
  | @cons inner ls rs rest l r hi _ ih =>
    obtain ⟨i₁, i₂, i₃, i₄, i₅, i₆⟩ := hi.summary
    obtain ⟨h₁, h₂, h₃, h₄, h₅, h₆, h₇⟩ := ih
    simp only [resolvedIn, waitedIn, toldWaitingIn, answeredIn, settledIn, toldIn, registeredIn]
      at i₁ i₂ i₃ i₄ i₅ i₆ h₁ h₂ h₃ h₄ h₅ h₇ ⊢
    refine ⟨by simp [i₁, h₁], by simp [i₂, h₂], by simp [i₃, h₃], by simp [i₄, h₄],
      by simp [i₅, h₅], by simp [h₆], ?_⟩
    simp only [List.cons_append, List.filterMap_cons, List.filterMap_append, List.map_cons,
      List.map_append, i₆] at h₇ ⊢
    -- the late notices inside the first one come before the others that waited
    refine List.Perm.cons _ ((h₇.append_left _).trans ?_)
    rw [← List.append_assoc, ← List.append_assoc]
    exact List.perm_append_comm.append_right _

/-- The moments of those that only wait, in numbers. -/
theorem waited_summary (ls : List Listener) :
    let ms := ls.map ContainerMoment.waited
    resolvedIn ms = [] ∧ waitedIn ms = ls ∧ registeredIn ms = ls ∧ toldIn ms = [] ∧
      toldWaitingIn ms = [] ∧ answeredIn ms = [] ∧ settledIn ms = [] := by
  induction ls with
  | nil => exact ⟨rfl, rfl, rfl, rfl, rfl, rfl, rfl⟩
  | cons l rest ih =>
    obtain ⟨h₁, h₂, h₃, h₄, h₅, h₆, h₇⟩ := ih
    exact ⟨h₁, congrArg (l :: ·) h₂, congrArg (l :: ·) h₃, h₄, h₅, h₆, h₇⟩

/-- **A new container is a one-shot future.** -/
theorem Container.Grows.oneShot {ms : List ContainerMoment} {x : Container}
    (h : Grows (.pending []) ms x) : OneShot ms x := by
  cases h with
  | waiting _ more =>
    obtain ⟨w₁, _, _, w₄, _⟩ := waited_summary more
    exact ⟨w₁, fun _ => w₄, nofun, nofun, nofun⟩
  -- three parts: those that wait, those that are told, and those that come late
  | @resolving v rs told late _ more ht hl =>
    obtain ⟨w₁, w₂, w₃, w₄, w₅, w₆, w₇⟩ := waited_summary more
    obtain ⟨h₁, h₂, h₃, h₄, h₅, h₆, h₇⟩ := ht.summary
    obtain ⟨i₁, i₂, i₃, i₄, i₅, i₆⟩ := hl.summary
    simp only [resolvedIn, waitedIn, toldWaitingIn, answeredIn, settledIn, toldIn, registeredIn]
      at w₁ w₂ w₃ w₄ w₅ w₆ w₇ h₁ h₂ h₃ h₄ h₅ h₇ i₁ i₂ i₃ i₄ i₅ i₆
    refine ⟨?_, nofun, ?_, fun _ _ => ?_, fun _ _ => ⟨?_, ?_⟩⟩
    · simp [resolvedIn, result?, -List.filterMap_map, w₁, h₁, i₁]
    · rintro _ ⟨⟩
      simp only [toldIn, registeredIn, List.filterMap_cons, List.filterMap_append,
        List.map_append, w₃, w₄, i₆, List.nil_append] at h₇ ⊢
      exact h₇.append_right _
    · simp [toldWaitingIn, waitedIn, -List.filterMap_map, w₂, w₅, h₂, h₃, i₂, i₃]
    · simp [answeredIn, waitedIn, -List.filterMap_map, w₂, w₆, h₂, h₄, h₆, i₂, i₄]
    · simp [answeredIn, settledIn, -List.filterMap_map, w₆, w₇, h₄, h₅, i₄, i₅]

/-! ### Runs of complete and listen -/

/-- What the host does takes every container along its life. -/
theorem Machine.performAll_grows {n : Nat} {c : Ref .container} {x : Container} {tag : Json}
    {actions : List Action} {w w' : World} {r : Except HostError Unit}
    (hx : w.containers.get? c = some x)
    (hr : Routine.performAll (ofFuel n) tag actions w = Run.ofExcept r w') :
    ∃ ms, w'.containerHistory c = w.containerHistory c ++ ms ∧ x.Grows ms (w'.container c) := by
  have L := life_lawful c
  have hk := @Lawful.performAll _ _ L (w.glimpse c) [] _ (ofFuel_keeps L n) tag actions
  -- look on from the beginning of the run
  have hw : LivesOn c (w.glimpse c) w := .glimpse (by rw [hx, World.container_eq hx])
  obtain ⟨ms, hh, hg⟩ := (hk.of_eq hw hr).grows
  refine ⟨ms, hh, ?_⟩
  rw [World.glimpse, World.container_eq hx] at hg
  exact hg

/-- A world in which the host has made one container. -/
def World.awaiting : World := ((Run.newNumbered : Hosted _) World.empty).2

/-- A listener completes its container again, brings another listener and fails; others come before
and after the result. -/
def reenteringActions : List Action :=
  let leaf (name : String) : Routine := .mk (.text name) [] none
  [.listen 0 (.mk (.text "first") [.complete 0 .null, .listen 0 (leaf "inner")]
      (some .alreadyCompleted)),
    .listen 0 (leaf "second"), .complete 0 .undefined, .complete 0 .null, .listen 0 (leaf "late")]

end ScriptModules
