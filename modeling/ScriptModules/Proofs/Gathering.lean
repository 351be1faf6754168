import Mathlib.Data.List.Nodup
import Mathlib.Data.List.Perm.Subperm
import ScriptModules.Proofs.Accounts

/-!
# Machines keep the accounts of gatherings

Each step that a machine takes keeps the accounts of all gatherings (`accounts_lawful`). The step
that matters is the arrival of a result (`gather_keeps`): whoever brings it had the one listener
for its slot in hand, so the slot was empty and the countdown above zero
(`Accounted.waiting_of_token`). The last arrival and the call of the callback are one step, since
the invariant does not hold between them; the same goes for the return of the callback and the
completion of the container.
-/

namespace ScriptModules

section

variable {i i' : Calling} {hand hand' : List Listener} {w w' : World} {g : Ref .gathering}
  {x x' : Gathering} {c : Ref .container} {k : Nat}

namespace Listener

theorem fills_self (g : Ref .gathering) (k : Nat) : fills g k (.gather g k) = 1 :=
  if_pos ⟨rfl, rfl⟩

theorem fills_of_ne {g g' : Ref .gathering} {k k' : Nat} (h : ¬ (g' = g ∧ k' = k)) :
    fills g k (.gather g' k') = 0 :=
  if_neg h

theorem completes_self (c : Ref .container) : completes c (.complete c) = 1 := if_pos rfl

theorem completes_of_ne {c c' : Ref .container} (h : c' ≠ c) : completes c (.complete c') = 0 :=
  if_neg h

/-- The listeners of a new gathering: one for each slot. -/
theorem sum_fills_range (g : Ref .gathering) (k n : Nat) :
    (((List.range' 0 n).map (Listener.gather g)).map (fills g k)).sum = if k < n then 1 else 0 := by
  induction n with
  | zero => rfl
  | succ n ih =>
    -- the last listener counts for its own slot only
    rw [List.range'_concat, List.map_append, List.map_append, List.sum_append, ih]
    show _ + fills g k (.gather g (0 + 1 * n)) + 0 = _
    by_cases hk : k = n
    · subst hk
      rw [Nat.one_mul, Nat.zero_add, fills_self]
      simp
    · rw [fills_of_ne (by omega)]
      split <;> split <;> omega

theorem sum_fills_range_of_ne {g g' : Ref .gathering} (h : g' ≠ g) (k n : Nat) :
    (((List.range' 0 n).map (Listener.gather g')).map (fills g k)).sum = 0 := by
  refine List.sum_eq_zero_iff_forall_eq_nat.mpr fun m hm => ?_
  simp only [List.map_map, List.mem_map, Function.comp_apply] at hm
  obtain ⟨j, _, rfl⟩ := hm
  exact fills_of_ne fun hj => h hj.1

theorem sum_completes_range (g : Ref .gathering) (c : Ref .container) (n : Nat) :
    (((List.range' 0 n).map (Listener.gather g)).map (completes c)).sum = 0 := by
  refine List.sum_eq_zero_iff_forall_eq_nat.mpr fun m hm => ?_
  simp only [List.map_map, List.mem_map, Function.comp_apply] at hm
  obtain ⟨j, _, rfl⟩ := hm
  rfl

end Listener

/-! ### Reading containers after changes -/

namespace World

theorem result?_addContainer (y : Container) (hc : c.row < w.containers.size) :
    (w.addContainer y).result? c = w.result? c := by
  have hne : c ≠ w.containers.fresh := by
    rintro rfl
    exact Nat.lt_irrefl _ hc
  have hx : (w.addContainer y).containers.get? c = w.containers.get? c := by
    rw [addContainer, Table.get?_add, if_neg hne]
  rw [result?, result?, container, container, hx]

theorem result?_addContainer_fresh (y : Container) :
    (w.addContainer y).result? w.containers.fresh = y.result? := by
  rw [result?, container, addContainer, Table.get?_add_fresh]
  rfl

theorem result?_setContainer_of_ne {c' : Ref .container} (h : c' ≠ c) (y : Container) :
    (w.setContainer c' y).result? c = w.result? c := by
  have hx : (w.setContainer c' y).containers.get? c = w.containers.get? c := by
    rw [setContainer, Table.set, Table.get?_update, if_neg h]
  rw [result?, result?, container, container, hx]

/-- A container that exists takes its result. -/
theorem result?_setContainer (hc : c.row < w.containers.size) (y : Container) :
    (w.setContainer c y).result? c = y.result? := by
  obtain ⟨z, hz⟩ := Table.exists_of_lt_size hc
  rw [result?, container, setContainer, Table.set, Table.get?_update, if_pos rfl, hz]
  rfl

theorem result?_of_pending {ls : List Listener} (h : w.container c = .pending ls) :
    w.result? c = none := by
  rw [result?, h]
  rfl

/-- Listening leaves all results as they are. -/
theorem result?_await {ls : List Listener} (h : w.container c = .pending ls) (l : Listener)
    (c' : Ref .container) : (w.await c ls l).result? c' = w.result? c' := by
  show (w.setContainer c _).result? c' = _
  by_cases hc : c = c'
  -- a listener more is no result
  · subst hc
    rcases w.container_cases c with ⟨_, hs⟩ | hx
    · rw [hs]
    · rw [result?, container, setContainer, Table.set, Table.get?_update, if_pos rfl, hx,
        result?_of_pending h]
      rfl
  · exact result?_setContainer_of_ne hc _

end World

namespace Accounted

/-! ### Containers -/

/-- Whoever makes a container may complete it. -/
theorem addContainer (h : Accounted i hand w) {y : Container} (hy : y.waiting = []) :
    Accounted i (.complete w.containers.fresh :: hand) (w.addContainer y) := by
  have hs : (w.addContainer y).containers.size = w.containers.size + 1 := Table.size_add _ _
  -- what completes the new container is in hand once, and nobody had it before
  refine h.frame rfl rfl (by omega) (fun g k => ?_) (fun c hc _ => ?_) (fun c hc => ?_)
    (fun g c hc _ => ⟨World.result?_addContainer y hc, rfl⟩) (fun _ => rfl) id
  · rw [World.held_cons, World.held_addContainer _ _ hy]
    exact Nat.le_of_eq (Nat.zero_add _)
  · have hne : w.containers.fresh ≠ c := by
      rintro rfl
      exact Nat.lt_irrefl _ hc
    rw [World.held_cons, World.held_addContainer _ _ hy, Listener.completes_of_ne hne]
    exact Nat.le_of_eq (Nat.zero_add _)
  · rw [hs] at hc
    have hne : w.containers.fresh ≠ c := by
      rintro rfl
      exact Nat.lt_irrefl _ hc
    rw [World.held_cons, World.held_addContainer _ _ hy, Listener.completes_of_ne hne, Nat.zero_add]
    exact h.completes c (by omega)

/-- What a listener in hand completes has been made. -/
theorem lt_of_complete (h : Accounted i (.complete c :: hand) w) : c.row < w.containers.size := by
  refine Nat.lt_of_not_le fun hc => ?_
  have := h.completes c hc
  rw [World.held_cons, Listener.completes_self] at this
  omega

/-- What a listener in hand completes belongs to no gathering. -/
theorem container_ne (h : Accounted i (.complete c :: hand) w)
    (hx : w.gatherings.get? g = some x) : c ≠ x.container := by
  rintro rfl
  have := (h.account g x hx).owned
  rw [World.held_cons, Listener.completes_self] at this
  omega

/-- The host may number a container that it may complete. -/
theorem number (h : Accounted i (.complete c :: hand) w) : Accounted i hand (w.number c) where
  account g x hx := by
    have ha := h.drop.account g x hx
    refine ha.frame (fun _ => Nat.le_refl _) (Nat.le_refl _) (fun hm => ?_) (Nat.le_refl _)
      (fun _ => Iff.rfl) rfl rfl rfl
    -- the number is new, and a completion in hand never belongs to a gathering
    rcases Array.mem_push.mp hm with hm | hm
    · exact ha.unnumbered hm
    · exact h.container_ne hx hm.symm
  tokens := h.drop.tokens
  unopened := h.drop.unopened
  distinct := h.drop.distinct
  numbered c' hc := by
    rcases Array.mem_push.mp hc with hc | rfl
    · exact h.numbered c' hc
    · exact h.lt_of_complete
  completes := h.drop.completes
  prompt := h.prompt

/-- The host may complete the containers that it has numbered. -/
theorem numbered_token (hc : w.numbered? k = some c) (h : Accounted i hand w) :
    Accounted i (.complete c :: hand) w := by
  have hm : c ∈ w.host.containers := Array.mem_of_getElem? hc
  -- no gathering has a numbered container, so the new completion is none of theirs
  refine h.frame rfl rfl (Nat.le_refl _) (fun g k => ?_) (fun c' _ hc' => ?_) (fun c' hc' => ?_)
    (fun _ _ _ _ => ⟨rfl, rfl⟩) (fun _ => rfl) id
  · rw [World.held_cons]
    exact Nat.le_of_eq (Nat.zero_add _)
  · have hne : c ≠ c' := by
      rintro rfl
      exact hc' hm
    rw [World.held_cons, Listener.completes_of_ne hne]
    exact Nat.le_of_eq (Nat.zero_add _)
  · have hne : c ≠ c' := by
      rintro rfl
      exact Nat.not_lt_of_le hc' (h.numbered c hm)
    rw [World.held_cons, Listener.completes_of_ne hne, Nat.zero_add]
    exact h.completes c' hc'

/-- A container that belongs to no gathering takes its result. -/
theorem resolve {ls : List Listener} (v : Value) (hc : w.container c = .pending ls)
    (h : Accounted i (.complete c :: hand) w) : Accounted i (ls ++ hand) (w.resolve c v) := by
  have hs : (w.resolve c v).containers.size = w.containers.size := Table.size_update _ _ _
  -- the completion is used up, and the listeners that waited come in hand instead
  have kept : ∀ p : Listener → Nat,
      (w.resolve c v).held p (ls ++ hand) ≤ w.held p (.complete c :: hand) := by
    intro p
    rw [World.held_resolve _ _ hc, World.held_cons]
    exact Nat.le_add_left _ _
  refine h.frame rfl rfl (Nat.le_of_eq hs.symm) (fun g k => kept _) (fun c _ _ => kept _)
    (fun c' hc' => ?_) (fun g c' _ hc' => ?_) (fun g => ?_) id
  · rw [hs] at hc'
    exact Nat.eq_zero_of_le_zero (Nat.le_trans (kept _) (Nat.le_of_eq (h.completes c' hc')))
  -- `c` may be completed, so it is not one that nobody may complete
  · have hne : c ≠ c' := by
      rintro rfl
      rw [World.held_cons, Listener.completes_self] at hc'
      omega
    refine ⟨World.result?_setContainer_of_ne hne _, ?_⟩
    rw [World.resolve, World.takenSince_mark _ rfl, Moment.taken?, if_neg hne]
    exact List.append_nil _
  · rw [World.resolve, World.gatheringHistory_mark]
    exact List.append_nil _

theorem await {ls : List Listener} (l : Listener) (hc : w.container c = .pending ls)
    (h : Accounted i (l :: hand) w) : Accounted i hand (w.await c ls l) :=
  h.frame_same rfl rfl (Table.size_update _ _ _) (World.result?_await hc l) (.of_foreign rfl rfl)
    (fun _ _ => World.held_await_le _ _ hc l) fun _ => World.held_await_le _ _ hc l

/-! ### Queues -/

theorem enqueue (c : Ref .context) (t : Task) (h : Accounted i (t.carried ++ hand) w) :
    Accounted i hand (w.enqueue c t) :=
  h.frame_same rfl rfl rfl (fun _ => rfl) (.of_foreign rfl rfl)
    (fun _ _ => World.held_enqueue_le _ _ w c t) fun _ => World.held_enqueue_le _ _ w c t

theorem dequeue {c : Ref .context} {t : Task} (hd : w.dequeue c = (some t, w'))
    (h : Accounted i hand w) : Accounted i (t.carried ++ hand) w' := by
  have hf := fun p => World.held_dequeue p hand hd
  obtain ⟨y, rest, _, _, rfl⟩ := World.dequeue_some hd
  exact h.frame_same rfl rfl rfl (fun _ => rfl) (.of_foreign rfl rfl)
    (fun _ _ => Nat.le_of_eq (hf _)) fun _ => Nat.le_of_eq (hf _)

end Accounted

/-! ### New gatherings -/

/-- A gathering for which nothing has come yet. -/
def Gathering.empty (n : Nat) (f : Ref .function) (this : Value) (script : String)
    (c : Ref .container) : Gathering where
  slots := Array.replicate n .undefined
  remaining := n
  callback := f
  this := this
  script := script
  container := c

section

variable (n : Nat) (f : Ref .function) (this : Value) (script : String)

theorem World.get?_openGathering (w : World) (g : Ref .gathering) :
    (w.openGathering n f this script).gatherings.get? g = if g = w.gatherings.fresh then
      some (.empty n f this script w.containers.fresh) else w.gatherings.get? g :=
  Table.get?_add _ _ g

theorem World.held_openGathering (p : Listener → Nat) (hand : List Listener) (w : World) :
    (w.openGathering n f this script).held p hand = w.held p hand :=
  World.held_addContainer _ _ rfl w

/-- A gathering is opened with one listener for each slot in hand. -/
theorem World.held_openGathering_fills (hand : List Listener) (w : World) (g : Ref .gathering)
    (k : Nat) : (w.openGathering n f this script).held (Listener.fills g k)
      ((List.range' 0 n).map (.gather w.gatherings.fresh) ++ hand) =
      (if g = w.gatherings.fresh ∧ k < n then 1 else 0) + w.held (Listener.fills g k) hand := by
  rw [World.held_append, World.held_openGathering]
  -- the listeners in hand are all of the new gathering
  by_cases hg : g = w.gatherings.fresh
  · rw [hg, Listener.sum_fills_range]
    simp
  · rw [Listener.sum_fills_range_of_ne (Ne.symm hg), if_neg fun hk => hg hk.1]

theorem World.held_openGathering_completes (hand : List Listener) (w : World)
    (c : Ref .container) : (w.openGathering n f this script).held (Listener.completes c)
      ((List.range' 0 n).map (.gather w.gatherings.fresh) ++ hand) =
      w.held (Listener.completes c) hand := by
  rw [World.held_append, World.held_openGathering, Listener.sum_completes_range, Nat.zero_add]

theorem World.gatheringHistory_openGathering (w : World) :
    (w.openGathering n f this script).gatheringHistory g = w.gatheringHistory g ++
      if g = w.gatherings.fresh then [.opened n f this w.containers.fresh] else [] := by
  rw [openGathering]
  split
  · next h =>
    rw [← h, gatheringHistory_mark_self]
    rfl
  · next h =>
    rw [gatheringHistory_mark_of_ne _ (Ne.symm h), List.append_nil]
    rfl

namespace Accounted

/-- The account of a new gathering. -/
theorem account_openGathering (h : Accounted i hand w) :
    Account i ((List.range' 0 n).map (.gather w.gatherings.fresh) ++ hand)
      (w.openGathering n f this script) w.gatherings.fresh
      (.empty n f this script w.containers.fresh) := by
  have hnone := w.gatherings.get?_fresh
  have hsize : (w.openGathering n f this script).containers.size = w.containers.size + 1 :=
    Table.size_add _ _
  have hhist : (w.openGathering n f this script).gatheringHistory w.gatherings.fresh =
      [.opened n f this w.containers.fresh] := by
    rw [World.gatheringHistory_openGathering, (h.unopened _ hnone).1, if_pos rfl]
    rfl
  -- nothing has come yet: one listener for each slot, and the countdown is at the top
  refine ⟨fun k => ?_, ?_, fun hm => ?_, ?_, fun y hy => ?_, [], [], ?_, ?_, ?_⟩
  · rw [World.held_openGathering_fills, h.tokens _ k hnone, hhist]
    simp [Gathering.empty, overIn]
  · rw [World.held_openGathering_completes]
    exact h.completes _ (Nat.le_refl _)
  · exact Nat.lt_irrefl _ (h.numbered _ hm)
  · rw [hsize]
    exact Nat.lt_succ_self _
  · exact absurd hy ((h.unopened _ hnone).2 y)
  · rw [hhist]
    simp [Gathering.empty]
  · exact ⟨nofun, by simp [Gathering.empty, arrivedIn], nofun⟩
  · have hr : (w.openGathering n f this script).result? w.containers.fresh = none :=
      World.result?_addContainer_fresh (.pending [])
    have ht : (w.openGathering n f this script).takenSince w.gatherings.fresh w.containers.fresh =
        [] := World.takenSince_opened _ (by simp [Moment.opens])
    show Gathering.Phase _ _ [] (World.result? _ w.containers.fresh)
      (World.takenSince _ _ w.containers.fresh)
    rw [hr, ht]
    refine .waiting ?_ ((h.unopened _ hnone).2 _)
    -- a gathering of nothing stays in this phase: nothing ever arrives
    rcases Nat.eq_zero_or_pos n with hn | hn
    · exact .inr (by simp [Gathering.empty, hn])
    · exact .inl hn

theorem openGathering (h : Accounted i hand w) :
    Accounted i ((List.range' 0 n).map (.gather w.gatherings.fresh) ++ hand)
      (w.openGathering n f this script) := by
  have hsize : (w.openGathering n f this script).containers.size = w.containers.size + 1 :=
    Table.size_add _ _
  have hnew := h.account_openGathering n f this script
  have hfresh : ∀ {g x}, w.gatherings.get? g = some x → g ≠ w.gatherings.fresh := by
    rintro g x hx rfl
    rw [w.gatherings.get?_fresh] at hx
    exact absurd hx nofun
  -- the container of an old gathering is older than that of the new one
  have hold : ∀ {g x}, w.gatherings.get? g = some x → x.container ≠ w.containers.fresh := by
    intro g x hx hc
    have := (h.account g x hx).exist
    rw [hc] at this
    exact Nat.lt_irrefl _ this
  refine ⟨fun g x hx => ?_, fun g k hx => ?_, fun g hx => ?_, fun g g' x x' hx hx' hc => ?_,
    fun c hc => ?_, fun c hc => ?_, h.prompt⟩
  · rw [World.get?_openGathering] at hx
    split at hx
    · next hg =>
      obtain rfl := Option.some.inj hx
      rw [hg]
      exact hnew
    · next hg =>
      -- an old gathering: the new listeners are not for it, and its story has not changed
      have ha := h.account g x hx
      refine ha.frame (fun k => ?_) (Nat.le_of_eq (World.held_openGathering_completes ..))
        ha.unnumbered (by omega) (fun _ => Iff.rfl) ?_ (World.result?_addContainer _ ha.exist) ?_
      · refine Nat.le_of_eq ?_
        rw [World.held_openGathering_fills, if_neg fun hk => hg hk.1, Nat.zero_add]
      · rw [World.gatheringHistory_openGathering, if_neg hg, List.append_nil]
      · refine (World.takenSince_mark _ ?_).trans (List.append_nil _)
        exact decide_eq_false (Ne.symm hg)
  · rw [World.get?_openGathering] at hx
    split at hx
    · exact absurd hx nofun
    · next hg =>
      rw [World.held_openGathering_fills, if_neg fun hk => hg hk.1, h.tokens g k hx]
  · rw [World.get?_openGathering] at hx
    split at hx
    · exact absurd hx nofun
    · next hg =>
      rw [World.gatheringHistory_openGathering, if_neg hg, List.append_nil]
      exact h.unopened g hx
  -- the new container belongs to no gathering but the new one
  · rw [World.get?_openGathering] at hx hx'
    split at hx <;> split at hx'
    · next hg hg' => rw [hg, hg']
    · obtain rfl := Option.some.inj hx
      exact absurd hc.symm (hold hx')
    · obtain rfl := Option.some.inj hx'
      exact absurd hc (hold hx)
    · exact h.distinct g g' x x' hx hx' hc
  · rw [hsize]
    exact Nat.lt_succ_of_lt (h.numbered c hc)
  · rw [hsize] at hc
    rw [World.held_openGathering_completes]
    exact h.completes c (Nat.le_of_succ_le hc)

end Accounted

end

/-! ### The arrival of a result -/

theorem mem_overIn_of_arrived {ms : List GatheringMoment} {v : Value}
    (h : (k, v) ∈ arrivedIn ms) : k ∈ overIn ms := by
  simp only [arrivedIn, List.mem_filterMap] at h
  obtain ⟨m, hm, hk⟩ := h
  refine List.mem_filterMap.mpr ⟨m, hm, ?_⟩
  cases m with
  | arrived j u =>
    obtain ⟨rfl, rfl⟩ : j = k ∧ u = v := by simpa using hk
    rfl
  | _ => exact absurd hk nofun

/-- Results come only where modules end. -/
theorem arrived_sublist (ms : List GatheringMoment) :
    ((arrivedIn ms).map Prod.fst).Sublist (overIn ms) := by
  -- each arrival ends a module, and a failure ends one without an arrival
  induction ms with
  | nil => exact .slnil
  | cons m rest ih =>
    cases m with
    | arrived k v => exact ih.cons_cons k
    | failed k => exact ih.cons k
    | _ => exact ih

/-- Slots below `n` of which none is seen twice are no more than `n`. -/
theorem length_le_of_counts {l : List Nat} {n : Nat}
    (hl : ∀ j, l.count j ≤ if j < n then 1 else 0) : l.length ≤ n := by
  -- a list without repetitions among the first `n` numbers
  have hnodup : l.Nodup := by
    refine List.nodup_iff_count_le_one.mpr fun j => ?_
    have := hl j
    split at this <;> omega
  have hsub : l ⊆ List.range n := by
    intro j hj
    have hcount : 0 < l.count j := List.count_pos_iff.mpr hj
    have := hl j
    refine List.mem_range.mpr ?_
    split at this <;> omega
  have hle := (hnodup.subperm hsub).length_le
  rwa [List.length_range] at hle

/-- They are fewer where one of them is not seen. -/
theorem length_lt_of_unseen {l : List Nat} {n : Nat}
    (hl : ∀ j, l.count j ≤ if j < n then 1 else 0) (hk : k < n) (hn : k ∉ l) : l.length < n := by
  -- put `k` in front: still no slot is seen twice
  refine length_le_of_counts (l := k :: l) fun j => ?_
  by_cases hj : k = j
  · subst hj
    refine Nat.le_of_eq ?_
    rw [List.count_cons_self, List.count_eq_zero_of_not_mem hn, if_pos hk]
  · rw [List.count_cons_of_ne hj]
    exact hl j

/-- **A gathering that still waits,** and what is known of it. -/
structure Gathering.Waits (g : Ref .gathering) (x : Gathering) (early : List GatheringMoment)
    (i : Calling) (w : World) : Prop where
  history : w.gatheringHistory g = .opened x.slots.size x.callback x.this x.container :: early
  counts : x.Counts early
  remaining : 0 < x.remaining
  inactive : ∀ y, (g, y) ∉ i
  result : w.result? x.container = none
  taken : w.takenSince g x.container = []

/-- **Whoever brings a result has the one listener for its slot:** the gathering waits, the slot is
empty, and the countdown is above zero. -/
theorem Accounted.waiting_of_token (h : Accounted i (.gather g k :: hand) w) :
    ∃ x early, w.gatherings.get? g = some x ∧ k < x.slots.size ∧ k ∉ overIn early ∧
      x.Waits g early i w := by
  -- the listener in hand is one
  have hone : 1 ≤ w.held (Listener.fills g k) (.gather g k :: hand) := by
    rw [World.held_cons, Listener.fills_self]
    exact Nat.le_add_right _ _
  cases hx : w.gatherings.get? g with
  | none =>
    have := h.tokens g k hx
    omega
  | some x =>
    have ha := h.account g x hx
    obtain ⟨early, late, hh, hc, hp⟩ := ha.course
    have hk := ha.tokens k
    -- there is no listener for a slot outside
    have hlt : k < x.slots.size := by
      refine Nat.lt_of_not_le fun hle => ?_
      rw [if_neg (Nat.not_lt_of_le hle)] at hk
      omega
    have hover : overIn (w.gatheringHistory g) = overIn early ++ overIn late := by
      rw [hh]
      exact List.filterMap_append
    -- one listener and one ending of the same slot would be two
    have hnew : k ∉ overIn early := by
      intro hm
      have : 0 < (overIn (w.gatheringHistory g)).count k := by
        rw [hover, List.count_append]
        exact Nat.add_pos_left (List.count_pos_iff.mpr hm) _
      rw [if_pos hlt] at hk
      omega
    -- so not all modules are over, and the countdown is not at zero
    have hlen : (overIn early).length < x.slots.size := by
      refine length_lt_of_unseen (fun j => Nat.le_trans ?_ (ha.tokens j)) hlt hnew
      rw [hover, List.count_append]
      omega
    have harrived := (arrived_sublist early).length_le
    have hrem : 0 < x.remaining := by
      have := hc.count
      rw [List.length_map] at harrived
      omega
    refine ⟨x, early, rfl, hlt, hnew, ?_⟩
    -- in the later phases the countdown is at zero
    generalize hr : w.result? x.container = r at hp
    generalize ht : w.takenSince g x.container = t at hp
    cases hp with
    | waiting _ hi =>
      refine ⟨by rw [hh, List.append_nil], hc, hrem, fun y hy => hi ?_, hr, ht⟩
      rwa [← ha.current y hy]
    | calling hz => omega
    | failed _ hz => omega
    | completed _ hz => omega

/-- One gathering has come further, and all others are as they were. -/
theorem Accounted.update (h : Accounted i hand w) (hx : w.gatherings.get? g = some x)
    (hx' : w'.gatherings.get? g = some x')
    (hg : ∀ g', g' ≠ g → w'.gatherings.get? g' = w.gatherings.get? g')
    (hc : x'.container = x.container) (ha : Account i' hand' w' g x')
    (hn : w'.host.containers = w.host.containers) (hs : w'.containers.size = w.containers.size)
    (hi : ∀ g', g' ≠ g → ∀ y, (g', y) ∈ i' ↔ (g', y) ∈ i)
    (hf : ∀ g' k, g' ≠ g →
      w'.held (Listener.fills g' k) hand' ≤ w.held (Listener.fills g' k) hand)
    (ho : ∀ c, w'.held (Listener.completes c) hand' ≤ w.held (Listener.completes c) hand)
    (hm : ∀ g', g' ≠ g → w'.gatheringHistory g' = w.gatheringHistory g')
    (hr : ∀ g' c, g' ≠ g → c ≠ x.container →
      w'.result? c = w.result? c ∧ w'.takenSince g' c = w.takenSince g' c)
    (hp : promptCalls w'.history) : Accounted i' hand' w' where
  account g' y hy := by
    by_cases hne : g' = g
    · subst hne
      rw [hx'] at hy
      obtain rfl := Option.some.inj hy
      exact ha
    · rw [hg g' hne] at hy
      have hb := h.account g' y hy
      -- another gathering has another container, which is left alone
      obtain ⟨hr, ht⟩ := hr g' y.container hne fun hc => hne (h.distinct g' g y x hy hx hc)
      refine hb.frame (fun k => hf g' k hne) (ho _) ?_ (Nat.le_of_eq hs.symm) (hi g' hne)
        (hm g' hne) hr ht
      rw [hn]
      exact hb.unnumbered
  tokens g' k hy := by
    by_cases hne : g' = g
    · subst hne
      rw [hx'] at hy
      exact absurd hy nofun
    · rw [hg g' hne] at hy
      exact Nat.eq_zero_of_le_zero (Nat.le_trans (hf g' k hne) (Nat.le_of_eq (h.tokens g' k hy)))
  unopened g' hy := by
    by_cases hne : g' = g
    · subst hne
      rw [hx'] at hy
      exact absurd hy nofun
    · rw [hg g' hne] at hy
      rw [hm g' hne]
      exact ⟨(h.unopened g' hy).1, fun y hi' => (h.unopened g' hy).2 y ((hi g' hne y).mp hi')⟩
  distinct := by
    -- an account has the container that it had before
    have before : ∀ g' y, w'.gatherings.get? g' = some y →
        ∃ z, w.gatherings.get? g' = some z ∧ z.container = y.container := by
      intro g' y hy
      by_cases hne : g' = g
      · subst hne
        rw [hx'] at hy
        obtain rfl := Option.some.inj hy
        exact ⟨x, hx, hc.symm⟩
      · rw [hg g' hne] at hy
        exact ⟨y, hy, rfl⟩
    intro g₁ g₂ y₁ y₂ h₁ h₂ he
    obtain ⟨z₁, h₁, e₁⟩ := before g₁ y₁ h₁
    obtain ⟨z₂, h₂, e₂⟩ := before g₂ y₂ h₂
    exact h.distinct g₁ g₂ z₁ z₂ h₁ h₂ (by rw [e₁, e₂, he])
  numbered c hc := by
    rw [hn] at hc
    rw [hs]
    exact h.numbered c hc
  completes c hc := by
    rw [hs] at hc
    exact Nat.eq_zero_of_le_zero (Nat.le_trans (ho c) (Nat.le_of_eq (h.completes c hc)))
  prompt := hp

/-- A module is over: its listener is used up, and its slot is written down. -/
theorem Account.over (h : Account i (.gather g k :: hand) w g x)
    (hc : x'.container = x.container) (hz : x'.slots.size = x.slots.size)
    (hh : ∀ p, w'.held p hand = w.held p hand) (hn : w'.host.containers = w.host.containers)
    (hs : w'.containers.size = w.containers.size)
    (ho : overIn (w'.gatheringHistory g) = overIn (w.gatheringHistory g) ++ [k])
    (hi : ∀ y, (g, y) ∈ i' → y = x') (hx : x'.Course g ((g, x') ∈ i') w') :
    Account i' hand w' g x' where
  tokens j := by
    have := h.tokens j
    rw [World.held_cons] at this
    rw [hh, ho, hz, List.count_append]
    -- for slot `k` a listener less and an ending more; for the others nothing has changed
    by_cases hj : k = j
    · subst hj
      rw [Listener.fills_self] at this
      rw [List.count_singleton_self]
      omega
    · rw [Listener.fills_of_ne fun hk => hj hk.2] at this
      rw [List.count_singleton, if_neg (by simpa using hj)]
      omega
  owned := by
    rw [hh, hc]
    have := h.owned
    rw [World.held_cons] at this
    omega
  unnumbered := by
    rw [hn, hc]
    exact h.unnumbered
  exist := by
    rw [hs, hc]
    exact h.exist
  current := hi
  course := hx

namespace Gathering

theorem Waits.course {early : List GatheringMoment} (h : x.Waits g early i w) :
    x.Course g ((g, x) ∈ i) w := by
  refine ⟨early, [], by rw [h.history, List.append_nil], h.counts, ?_⟩
  rw [h.result, h.taken]
  exact .waiting (.inl h.remaining) (h.inactive x)

/-- A gathering with one more result. -/
def filled (x : Gathering) (k : Nat) (v : Value) : Gathering :=
  { x with slots := x.slots.setIfInBounds k v, remaining := x.remaining - 1 }

theorem size_filled (x : Gathering) (k : Nat) (v : Value) :
    (x.filled k v).slots.size = x.slots.size :=
  Array.size_setIfInBounds

theorem Counts.failed {early : List GatheringMoment} (h : x.Counts early) (k : Nat) :
    x.Counts (early ++ [.failed k]) := by
  have ha : arrivedIn (early ++ [.failed k]) = arrivedIn early := by
    rw [arrivedIn, List.filterMap_append]
    exact List.append_nil _
  refine ⟨fun m hm => ?_, ?_, ?_⟩
  · rcases List.mem_append.mp hm with hm | hm
    · exact h.deliveries m hm
    · rw [List.mem_singleton.mp hm]
      rfl
  · rw [ha]
    exact h.count
  · rw [ha]
    exact h.values

theorem Counts.arrived {early : List GatheringMoment} (h : x.Counts early)
    (hk : k < x.slots.size) (hn : k ∉ overIn early) (hr : 0 < x.remaining) (v : Value) :
    (x.filled k v).Counts (early ++ [.arrived k v]) := by
  have ha : arrivedIn (early ++ [.arrived k v]) = arrivedIn early ++ [(k, v)] := by
    rw [arrivedIn, List.filterMap_append]
    rfl
  refine ⟨fun m hm => ?_, ?_, fun j u hj => ?_⟩
  · rcases List.mem_append.mp hm with hm | hm
    · exact h.deliveries m hm
    · rw [List.mem_singleton.mp hm]
      rfl
  · rw [ha, size_filled, List.length_append, ← h.count]
    show x.remaining - 1 + (_ + 1) = _
    omega
  · rw [ha] at hj
    show (x.slots.setIfInBounds k v)[j]? = some u
    rcases List.mem_append.mp hj with hj | hj
    -- what had arrived stands in another slot, since `k` had not
    · have hne : k ≠ j := by
        rintro rfl
        exact hn (mem_overIn_of_arrived hj)
      rw [Array.getElem?_setIfInBounds_ne hne]
      exact h.values j u hj
    · obtain ⟨rfl, rfl⟩ := Prod.mk.inj (List.mem_singleton.mp hj)
      rw [Array.getElem?_setIfInBounds_self_of_lt hk]

end Gathering

theorem World.get?_arrive (hx : w.gatherings.get? g = some x) (k : Nat) (v : Value) :
    (w.arrive g k v).gatherings.get? g = some (x.filled k v) := by
  show (Table.update w.gatherings g _).get? g = _
  rw [Table.get?_update, if_pos rfl, hx]
  rfl

theorem World.get?_arrive_of_ne {g' : Ref .gathering} (h : g' ≠ g) (w : World) (k : Nat)
    (v : Value) : (w.arrive g k v).gatherings.get? g' = w.gatherings.get? g' := by
  show (Table.update w.gatherings g _).get? g' = _
  rw [Table.get?_update, if_neg (Ne.symm h)]

theorem World.gatheringHistory_arrive (w : World) (g : Ref .gathering) (k : Nat) (v : Value) :
    (w.arrive g k v).gatheringHistory g = w.gatheringHistory g ++ [.arrived k v] :=
  World.gatheringHistory_mark_self _ g _

theorem World.takenSince_gathering {g' : Ref .gathering} {m : GatheringMoment}
    (hm : Moment.opens g' (.gathering g m) = false) :
    (w.mark (.gathering g m)).takenSince g' c = w.takenSince g' c :=
  (w.takenSince_mark hm).trans (List.append_nil _)

namespace Accounted

/-- A module of a gathering is over. -/
theorem advance (h : Accounted i (.gather g k :: hand) w) (hx : w.gatherings.get? g = some x)
    (hx' : w'.gatherings.get? g = some x')
    (hg : ∀ g', g' ≠ g → w'.gatherings.get? g' = w.gatherings.get? g')
    (hc : x'.container = x.container) (hz : x'.slots.size = x.slots.size)
    (hh : ∀ p, w'.held p hand = w.held p hand) (hn : w'.host.containers = w.host.containers)
    (hs : w'.containers = w.containers)
    (ho : overIn (w'.gatheringHistory g) = overIn (w.gatheringHistory g) ++ [k])
    (hi : ∀ g', g' ≠ g → ∀ y, (g', y) ∈ i' ↔ (g', y) ∈ i)
    (hy : ∀ y, (g, y) ∈ i' → y = x') (hcourse : x'.Course g ((g, x') ∈ i') w')
    (hm : ∀ g', g' ≠ g → w'.gatheringHistory g' = w.gatheringHistory g')
    (ht : ∀ g' c, w'.takenSince g' c = w.takenSince g' c) (hp : promptCalls w'.history) :
    Accounted i' hand w' := by
  have hsize : w'.containers.size = w.containers.size := by rw [hs]
  -- the listener in hand is used up
  have hle : ∀ p, w'.held p hand ≤ w.held p (.gather g k :: hand) := by
    intro p
    rw [hh, World.held_cons]
    exact Nat.le_add_left _ _
  refine h.update hx hx' hg hc ?_ hn hsize hi (fun _ _ _ => hle _) (fun _ => hle _) hm
    (fun g' c _ _ => ⟨?_, ht g' c⟩) hp
  · exact (h.account g x hx).over hc hz hh hn hsize ho hy hcourse
  · rw [World.result?, World.result?, World.container, World.container, hs]

/-- A module fails before it has a result. -/
theorem forsake {l : Listener} (h : Accounted i (l :: hand) w) :
    Accounted i hand (w.forsake l) := by
  cases l with
  | gather g k =>
    obtain ⟨x, early, hx, hk, hn, hw⟩ := h.waiting_of_token
    have hh : (w.forsake (.gather g k)).gatheringHistory g =
        w.gatheringHistory g ++ [.failed k] := World.gatheringHistory_mark_self _ g _
    have hw' : x.Waits g (early ++ [.failed k]) i (w.forsake (.gather g k)) :=
      ⟨by rw [hh, hw.history]; rfl, hw.counts.failed k, hw.remaining, hw.inactive, hw.result,
        (World.takenSince_gathering rfl).trans hw.taken⟩
    refine h.advance hx hx (fun _ _ => rfl) rfl rfl (fun _ => rfl) rfl rfl ?_
      (fun _ _ _ => Iff.rfl) (fun y hy => absurd hy (hw.inactive y)) hw'.course ?_
      (fun _ _ => World.takenSince_gathering rfl) h.prompt
    · rw [hh, overIn, List.filterMap_append]
      rfl
    · exact fun g' hg => World.gatheringHistory_mark_of_ne _ (Ne.symm hg) _
  | _ => exact h.drop

/-- A result arrives that is not the last. -/
theorem arrive (h : Accounted i (.gather g k :: hand) w) (hx : w.gatherings.get? g = some x)
    (hr : x.remaining - 1 ≠ 0) (v : Value) : Accounted i hand (w.arrive g k v) := by
  obtain ⟨y, early, hy, hk, hn, hw⟩ := h.waiting_of_token
  obtain rfl : x = y := Option.some.inj (hx.symm.trans hy)
  -- it waits still: the countdown is one lower and not at zero
  have hw' : (x.filled k v).Waits g (early ++ [.arrived k v]) i (w.arrive g k v) :=
    { history := by
        rw [World.gatheringHistory_arrive, hw.history, Gathering.size_filled]
        rfl
      counts := hw.counts.arrived hk hn hw.remaining v
      remaining := Nat.pos_of_ne_zero hr
      inactive := hw.inactive
      result := hw.result
      taken := (World.takenSince_gathering rfl).trans hw.taken }
  refine h.advance hx (World.get?_arrive hx k v) (fun g' hg => World.get?_arrive_of_ne hg w k v)
    rfl (Gathering.size_filled x k v) (fun _ => rfl) rfl rfl ?_ (fun _ _ _ => Iff.rfl)
    (fun y hy => absurd hy (hw.inactive y)) hw'.course ?_
    (fun _ _ => World.takenSince_gathering rfl) h.prompt
  · rw [World.gatheringHistory_arrive, overIn, List.filterMap_append]
    rfl
  · exact fun g' hg => World.gatheringHistory_mark_of_ne _ (Ne.symm hg) _

/-- **The last result arrives,** and the callback is called. -/
theorem arrive_last (h : Accounted i (.gather g k :: hand) w) (hx : w.gatherings.get? g = some x)
    (hr : x.remaining - 1 = 0) (v : Value) :
    (∀ y, (g, y) ∉ i) ∧ Accounted ((g, x.filled k v) :: i) hand ((w.arrive g k v).mark
      (.gathering g (.called x.callback x.this (x.filled k v).slots))) := by
  obtain ⟨y, early, hy, hk, hn, hw⟩ := h.waiting_of_token
  obtain rfl : x = y := Option.some.inj (hx.symm.trans hy)
  refine ⟨hw.inactive, ?_⟩
  -- the world after both: the result is in its slot and the callback has been called
  generalize hw' : (w.arrive g k v).mark
    (.gathering g (.called x.callback x.this (x.filled k v).slots)) = w'
  have hhist : w'.gatheringHistory g = w.gatheringHistory g ++
      [.arrived k v, .called x.callback x.this (x.filled k v).slots] := by
    rw [← hw', World.gatheringHistory_mark_self, World.gatheringHistory_arrive, List.append_assoc]
    rfl
  have htaken : ∀ g' c, w'.takenSince g' c = w.takenSince g' c := by
    intro g' c
    rw [← hw', World.takenSince_gathering rfl]
    exact World.takenSince_gathering rfl
  -- the gathering goes from waiting to calling
  have hcourse : (x.filled k v).Course g ((g, x.filled k v) ∈ (g, x.filled k v) :: i) w' := by
    refine ⟨early ++ [.arrived k v], [.called x.callback x.this (x.filled k v).slots], ?_,
      hw.counts.arrived hk hn hw.remaining v, ?_⟩
    · rw [hhist, hw.history, Gathering.size_filled]
      simp [Gathering.filled]
    · have hres : w'.result? x.container = none := by
        rw [← hw']
        exact hw.result
      show Gathering.Phase _ _ _ (w'.result? x.container) (w'.takenSince g x.container)
      rw [hres, htaken, hw.taken]
      exact .calling hr List.mem_cons_self
  have hx' : w'.gatherings.get? g = some (x.filled k v) := by
    rw [← hw']
    exact World.get?_arrive hx k v
  refine h.advance hx hx' ?_ rfl (Gathering.size_filled x k v) (fun p => ?_) ?_ ?_ ?_ ?_
    (fun y hy => ?_) hcourse ?_ htaken ?_
  · rw [← hw']
    exact fun g' hg => World.get?_arrive_of_ne hg w k v
  · rw [← hw']
    rfl
  · rw [← hw']
    rfl
  · rw [← hw']
    rfl
  · rw [hhist, overIn, List.filterMap_append]
    rfl
  · intro g' hg y
    refine List.mem_cons.trans (or_iff_right fun he => hg (Prod.mk.inj he).1)
  · rcases List.mem_cons.mp hy with he | hy
    · exact (Prod.mk.inj he).2
    · exact absurd hy (hw.inactive y)
  · intro g' hg
    rw [← hw', World.gatheringHistory_mark_of_ne _ (Ne.symm hg)]
    exact World.gatheringHistory_mark_of_ne _ (Ne.symm hg) _
  · rw [← hw']
    exact ⟨⟨k, v, w.history, rfl⟩, h.prompt⟩

end Accounted

/-! ### The return of the callback -/

/-- **A gathering whose callback is being called,** and what is known of it. -/
structure Gathering.Calls (g : Ref .gathering) (x : Gathering) (early : List GatheringMoment)
    (w : World) : Prop where
  gathering : w.gatherings.get? g = some x
  history : w.gatheringHistory g = .opened x.slots.size x.callback x.this x.container ::
    (early ++ [.called x.callback x.this x.slots])
  counts : x.Counts early
  remaining : x.remaining = 0
  result : w.result? x.container = none
  taken : w.takenSince g x.container = []

theorem Accounted.calls_of_mem (h : Accounted i hand w) (hi : (g, x) ∈ i) :
    ∃ early, x.Calls g early w := by
  cases hx : w.gatherings.get? g with
  | none => exact absurd hi ((h.unopened g hx).2 x)
  | some y =>
    have ha := h.account g y hx
    obtain rfl := ha.current x hi
    obtain ⟨early, late, hh, hc, hp⟩ := ha.course
    generalize hr : w.result? x.container = r at hp
    generalize ht : w.takenSince g x.container = t at hp
    -- only in one phase it is active
    cases hp with
    | waiting _ hn => exact absurd hi hn
    | calling hz _ => exact ⟨early, hx, hh, hc, hz, hr, ht⟩
    | failed _ _ hn => exact absurd hi hn
    | completed _ _ hn => exact absurd hi hn

/-- The callback of a gathering has returned. -/
theorem Account.returned (h : Account i hand w g x) {r : Except HostError Value}
    (hf : ∀ p, w'.held p hand' = w.held p hand) (hn : w'.host.containers = w.host.containers)
    (hs : w'.containers.size = w.containers.size)
    (hh : w'.gatheringHistory g = w.gatheringHistory g ++ [.returned r])
    (hi : ∀ y, (g, y) ∉ i') (hx : x.Course g False w') : Account i' hand' w' g x where
  tokens k := by
    have ho : overIn (w'.gatheringHistory g) = overIn (w.gatheringHistory g) := by
      rw [hh, overIn, List.filterMap_append]
      exact List.append_nil _
    rw [hf, ho]
    exact h.tokens k
  owned := by
    rw [hf]
    exact h.owned
  unnumbered := by
    rw [hn]
    exact h.unnumbered
  exist := by
    rw [hs]
    exact h.exist
  current y hy := absurd hy (hi y)
  course := by
    rw [show ((g, x) ∈ i') = False from eq_false (hi x)]
    exact hx

namespace Accounted

/-- A callback fails. The container of its gathering stays as it is. -/
theorem returned_error (h : Accounted ((g, x) :: i) hand w) (hi : ∀ y, (g, y) ∉ i)
    (e : HostError) : Accounted i hand (w.mark (.gathering g (.returned (.error e)))) := by
  obtain ⟨early, hc⟩ := h.calls_of_mem List.mem_cons_self
  -- it goes to the phase of failure, and its container never gets a result
  have hcourse : x.Course g False (w.mark (.gathering g (.returned (.error e)))) := by
    refine ⟨early, [.called x.callback x.this x.slots, .returned (.error e)], ?_, hc.counts, ?_⟩
    · rw [World.gatheringHistory_mark_self, hc.history, List.cons_append, List.append_assoc]
      rfl
    · have hr : (w.mark (.gathering g (.returned (.error e)))).result? x.container = none :=
        hc.result
      rw [hr, World.takenSince_gathering rfl, hc.taken]
      exact .failed e hc.remaining id
  refine h.update hc.gathering hc.gathering (fun _ _ => rfl) rfl ?_ rfl rfl (fun g' hg y => ?_)
    (fun _ _ _ => Nat.le_refl _) (fun _ => Nat.le_refl _) (fun g' hg => ?_)
    (fun g' c _ _ => ⟨rfl, World.takenSince_gathering rfl⟩) h.prompt
  · exact (h.account g x hc.gathering).returned (fun _ => rfl) rfl rfl
      (World.gatheringHistory_mark_self _ g _) hi hcourse
  · exact (List.mem_cons.trans (or_iff_right fun he => hg (Prod.mk.inj he).1)).symm
  · exact World.gatheringHistory_mark_of_ne _ (Ne.symm hg) _

/-- **A callback succeeds,** and the container of its gathering takes what it returned. -/
theorem returned_ok (h : Accounted ((g, x) :: i) hand w) (hi : ∀ y, (g, y) ∉ i)
    {ls : List Listener} (hp : w.container x.container = .pending ls) (v : Value) :
    Accounted i (ls ++ hand)
      ((w.mark (.gathering g (.returned (.ok v)))).resolve x.container v) := by
  obtain ⟨early, hc⟩ := h.calls_of_mem List.mem_cons_self
  generalize hw₁ : w.mark (.gathering g (.returned (.ok v))) = w₁
  have hp₁ : w₁.container x.container = .pending ls := by
    rw [← hw₁]
    exact hp
  have hsize : (w₁.resolve x.container v).containers.size = w.containers.size := by
    rw [← hw₁]
    exact Table.size_update _ _ _
  -- the listeners of the container come in hand, and nothing is lost or doubled
  have hheld : ∀ p, (w₁.resolve x.container v).held p (ls ++ hand) = w.held p hand := by
    intro p
    rw [World.held_resolve _ _ hp₁, ← hw₁]
    rfl
  have hhist : ∀ g', (w₁.resolve x.container v).gatheringHistory g' = w₁.gatheringHistory g' := by
    intro g'
    rw [World.resolve, World.gatheringHistory_mark]
    exact List.append_nil _
  have hself : (w₁.resolve x.container v).gatheringHistory g =
      w.gatheringHistory g ++ [.returned (.ok v)] := by
    rw [hhist, ← hw₁, World.gatheringHistory_mark_self]
  -- only one container takes a result
  have htaken : ∀ g' c, (w₁.resolve x.container v).takenSince g' c =
      w.takenSince g' c ++ if x.container = c then [v] else [] := by
    intro g' c
    rw [World.resolve, World.takenSince_mark _ rfl, Moment.taken?, ← hw₁]
    show (w.mark _).takenSince g' c ++ _ = _
    rw [World.takenSince_gathering rfl]
    by_cases he : x.container = c
    · rw [if_pos he, if_pos he]
      rfl
    · rw [if_neg he, if_neg he]
      rfl
  -- it goes to the last phase, with what the callback returned
  have hcourse : x.Course g False (w₁.resolve x.container v) := by
    refine ⟨early, [.called x.callback x.this x.slots, .returned (.ok v)], ?_, hc.counts, ?_⟩
    · rw [hself, hc.history, List.cons_append, List.append_assoc]
      rfl
    · have hexist : x.container.row < w₁.containers.size := by
        rw [← hw₁]
        exact (h.account g x hc.gathering).exist
      have hr : (w₁.resolve x.container v).result? x.container = some v :=
        World.result?_setContainer hexist _
      rw [hr, htaken, hc.taken, if_pos rfl]
      exact .completed v hc.remaining id
  have hg' : (w₁.resolve x.container v).gatherings = w.gatherings := by
    rw [← hw₁]
    rfl
  refine h.update hc.gathering (by rw [hg', hc.gathering]) (fun _ _ => by rw [hg']) rfl ?_ ?_ hsize
    (fun g' hg y => ?_) (fun _ _ _ => Nat.le_of_eq (hheld _)) (fun _ => Nat.le_of_eq (hheld _))
    (fun g' hg => ?_) (fun g' c _ hne => ⟨?_, ?_⟩) ?_
  · refine (h.account g x hc.gathering).returned hheld ?_ hsize hself hi hcourse
    rw [← hw₁]
    rfl
  · rw [← hw₁]
    rfl
  · exact (List.mem_cons.trans (or_iff_right fun he => hg (Prod.mk.inj he).1)).symm
  · rw [hhist, ← hw₁]
    exact World.gatheringHistory_mark_of_ne _ (Ne.symm hg) _
  · have hr : (w₁.resolve x.container v).result? c = w₁.result? c :=
      World.result?_setContainer_of_ne (Ne.symm hne) _
    rw [hr, ← hw₁]
    rfl
  · rw [htaken, if_neg (Ne.symm hne), List.append_nil]
  · rw [← hw₁]
    exact h.prompt

end Accounted

end

/-! ### Machines -/

/-- **All accounts are kept,** as an invariant. -/
def accounts : Invariant Calling where
  holds := Accounted
  lost w := ∃ i hand, Accounted i hand w
  drains _ := True

theorem accounts_completing (c : Ref .container) : Completing accounts c where
  drop := Accounted.drop
  resolve v := Accounted.resolve v
  await l := Accounted.await l
  notice {i hand w k} hk hw := by
    refine Accounted.mark ?_ hw
    cases k with
    | resolved v => exact absurd hk nofun
    | _ => rfl

theorem accounts_queueing : Queueing accounts where
  enqueue := Accounted.enqueue
  idle _ _ := trivial
  begin _ hw := Accounted.rearranged (World.rearranged_beginDrain _ _) hw
  finish _ hw := Accounted.rearranged (World.rearranged_endDrain _ _) hw
  dequeue _ := Accounted.dequeue
  finished _ _ _ := Accounted.mark rfl

/-- Calling a callback with all results keeps the accounts, from where it has been called. -/
theorem callGathered_keeps {m : Machine} (M : m.Keeps accounts) (i : Calling)
    (hand : List Listener) (g : Ref .gathering) (x : Gathering) (hi : ∀ y, (g, y) ∉ i) :
    Run.Leads (Accounted ((g, x) :: i) hand)
      (do
        let r ← Run.attempt (m.callFor x.script x.callback x.this x.slots)
        Run.mark (.gathering g (.returned r))
        m.complete x.container (← Run.ofExcept r))
      (fun _ => Accounted i hand) accounts.lost := by
  have called : Run.Keeps (Accounted ((g, x) :: i) hand) accounts.lost
      (m.callFor x.script x.callback x.this x.slots) :=
    Run.Keeps.inName (M.call ((g, x) :: i) hand _ _ _) fun _ _ => Accounted.mark rfl
  refine Run.Leads.bind_attempt called fun r => ?_
  cases r with
  | error e =>
    exact Run.Leads.bind_mark (R := Accounted i hand)
      (fun w hw => Accounted.returned_error hw hi e) Run.Keeps.fail
  | ok v =>
    -- between the return and the result the accounts do not hold: remember how it came to be
    refine Run.Leads.bind_mark (R := fun w => ∃ w₀, Accounted ((g, x) :: i) hand w₀ ∧
      w = w₀.mark (.gathering g (.returned (.ok v)))) (fun w hw => ⟨w, hw, rfl⟩) ?_
    refine (accounts_completing x.container).complete_from M i hand v ?_ ?_
    · rintro w ls ⟨w₀, hw₀, rfl⟩ hp
      exact hw₀.returned_ok hi hp v
    -- the container cannot have its result already: nobody else may complete it
    · rintro w u ⟨w₀, hw₀, rfl⟩ hp
      obtain ⟨early, hc⟩ := hw₀.calls_of_mem List.mem_cons_self
      have hr : w₀.container x.container = .resolved u := hp
      have := hc.result
      rw [World.result?, hr] at this
      cases this

/-- A result is put into its slot; the last one calls the callback there and then. -/
theorem Machine.gather_eq (m : Machine) {g : Ref .gathering} {x : Gathering} {w : World}
    (hx : w.gatherings.get? g = some x) (k : Nat) (v : Value) :
    m.gather g k v w = if (x.filled k v).remaining = 0 then
      m.callGathered g (x.filled k v) (w.arrive g k v) else (.done (), w.arrive g k v) := by
  unfold gather
  rw [Run.bind_of_done (Run.change_apply _ _), Run.bind_of_done (Run.read_apply _ _),
    World.get?_arrive hx k v]
  show (if _ then _ else _ : Hosted Unit) (w.arrive g k v) = _
  split
  · rfl
  · rfl

/-- A result for a gathering that does not exist is lost. -/
theorem Machine.gather_none (m : Machine) {g : Ref .gathering} {w : World}
    (hx : w.gatherings.get? g = none) (k : Nat) (v : Value) :
    m.gather g k v w = (.done (), w.arrive g k v) := by
  have hx' : (w.arrive g k v).gatherings.get? g = none := by
    show (Table.update w.gatherings g _).get? g = _
    rw [Table.get?_update, if_pos rfl, hx]
    rfl
  unfold gather
  rw [Run.bind_of_done (Run.change_apply _ _), Run.bind_of_done (Run.read_apply _ _), hx']
  rfl

theorem gather_keeps {m : Machine} (M : m.Keeps accounts) (i : Calling) (hand : List Listener)
    (g : Ref .gathering) (k : Nat) (v : Value) :
    Run.Leads (Accounted i (.gather g k :: hand)) (m.gather g k v) (fun _ => Accounted i hand)
      accounts.lost := by
  intro w hw
  -- the listener in hand shows that the gathering exists and waits
  obtain ⟨x, early, hx, _⟩ := hw.waiting_of_token
  rw [m.gather_eq hx]
  by_cases hr : (x.filled k v).remaining = 0
  · obtain ⟨hi, hcalled⟩ := hw.arrive_last hx hr v
    have kept := callGathered_keeps M i hand g (x.filled k v) hi
    rw [if_pos hr]
    exact kept _ hcalled
  · rw [if_neg hr]
    exact hw.arrive hx hr v

/-- **Machines keep the accounts of all gatherings.** -/
theorem accounts_lawful : Lawful accounts where
  toEvaluating := .of_shared (fun hs hw => Accounted.rearranged hs.rearranged hw)
    (fun _ => Accounted.mark rfl) fun hw => ⟨_, _, Accounted.mark rfl hw⟩
  drop := Accounted.drop
  lost hw := ⟨_, _, hw⟩
  aside hs hw := Accounted.rearranged hs.rearranged hw
  call _ := Accounted.mark rfl
  newPending hw := Accounted.addContainer hw rfl
  newResolved _ hw := (Accounted.addContainer hw rfl).drop
  newNumbered hw := (Accounted.addContainer hw rfl).number
  numbered := Accounted.numbered_token
  routine r := Accounted.routine r
  openGathering n f this script := Accounted.openGathering n f this script
  forsake := Accounted.forsake
  clearQueue c := Accounted.clearQueue c
  dropContext c hw := Accounted.rearranged (World.rearranged_dropContext _ c) hw
  complete M i hand c v := (accounts_completing c).complete M i hand v
  listen M i hand c l := (accounts_completing c).listen M i hand l
  gather M i hand g slot v := (gather_keeps M i hand g slot v).strengthen fun _ => And.left
  schedule M i hand := accounts_queueing.schedule M i hand
  drain M ht i hand := accounts_queueing.drain M ht i hand

end ScriptModules
