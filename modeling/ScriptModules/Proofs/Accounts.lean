import ScriptModules.Proofs.Load

/-!
# Gatherings keep their accounts

A gathering of `n` results is fed by `n` one-shot listeners, one for each slot. The invariant counts
them: for each slot there is one listener, in hand or waiting somewhere in the world, or its module
is over, and never more (`Account.tokens`). So no slot is filled twice, the countdown reaches zero
when all results are there and not before, and nothing can come after that.

What happened to a gathering is read off the history (`World.gatheringHistory`): it was opened,
modules came to an end one by one (`Gathering.Counts`), and perhaps its callback was called, once
(`Gathering.Phase`). The container that `use` returned has a result just in the last phase; nobody
else can complete it, since no listener that could is ever made and it has no number.

A gathering whose callback is being called is between two phases. The invariant names these
gatherings, with their records, in its index.
-/

namespace ScriptModules

/-! ### The moments of one gathering -/

/-- The moment of a gathering in something that happened. -/
def Moment.ofGathering? (g : Ref .gathering) : Moment → Option GatheringMoment
  | .gathering g' m => if g' = g then some m else none
  | _ => none

/-- Whether a gathering was opened. -/
def Moment.opens (g : Ref .gathering) : Moment → Bool
  | .gathering g' (.opened ..) => g' = g
  | _ => false

/-- The result that a container took. -/
def Moment.taken? (c : Ref .container) : Moment → Option Value
  | .container c' (.resolved v) => if c' = c then some v else none
  | _ => none

/-- Whether a module is over, with a result or without. -/
def GatheringMoment.isDelivery : GatheringMoment → Bool
  | .failed _ | .arrived _ _ => true
  | _ => false

/-- The results that came, with their slots, in order. -/
def arrivedIn (ms : List GatheringMoment) : List (Nat × Value) :=
  ms.filterMap fun | .arrived k v => some (k, v) | _ => none

/-- The slots whose modules are over, in order. -/
def overIn (ms : List GatheringMoment) : List Nat :=
  ms.filterMap fun | .arrived k _ => some k | .failed k => some k | _ => none

namespace World

variable (w : World) (g : Ref .gathering) (c : Ref .container)

/-- What happened to a gathering, in order. -/
def gatheringHistory : List GatheringMoment := w.moments (Moment.ofGathering? g)

/-- **The results that a container took since a gathering was opened,** in order. -/
def takenSince : List Value :=
  ((w.history.takeWhile fun m => !m.opens g).filterMap (Moment.taken? c)).reverse

variable {g c} {m : Moment}

theorem gatheringHistory_mark (g : Ref .gathering) (m : Moment) :
    (w.mark m).gatheringHistory g = w.gatheringHistory g ++ (m.ofGathering? g).toList :=
  w.moments_mark _ m

theorem gatheringHistory_mark_self (g : Ref .gathering) (k : GatheringMoment) :
    (w.mark (.gathering g k)).gatheringHistory g = w.gatheringHistory g ++ [k] := by
  rw [gatheringHistory_mark, Moment.ofGathering?, if_pos rfl]
  rfl

theorem gatheringHistory_mark_of_ne {g g' : Ref .gathering} (h : g' ≠ g) (k : GatheringMoment) :
    (w.mark (.gathering g' k)).gatheringHistory g = w.gatheringHistory g := by
  rw [gatheringHistory_mark, Moment.ofGathering?, if_neg h]
  exact List.append_nil _

theorem takenSince_mark (hm : m.opens g = false) :
    (w.mark m).takenSince g c = w.takenSince g c ++ (m.taken? c).toList := by
  unfold takenSince mark
  rw [List.takeWhile_cons, hm]
  cases h : m.taken? c with
  | none => simp [h]
  | some v => simp [h]

theorem takenSince_opened (hm : m.opens g = true) : (w.mark m).takenSince g c = [] := by
  unfold takenSince mark
  rw [List.takeWhile_cons, hm]
  rfl

end World

/-! ### Calls come at once -/

/-- **Callbacks are called at the moment the last result comes:** nothing happens in between. -/
def promptCalls : List Moment → Prop
  | [] => True
  | .gathering g (.called _ _ _) :: past =>
    (∃ k v rest, past = .gathering g (.arrived k v) :: rest) ∧ promptCalls past
  | _ :: past => promptCalls past

/-! ### The course of a gathering -/

/-- What a listener weighs that fills a slot. -/
def Listener.fills (g : Ref .gathering) (k : Nat) : Listener → Nat
  | .gather g' k' => if g' = g ∧ k' = k then 1 else 0
  | _ => 0

/-- What a listener weighs that completes a container. -/
def Listener.completes (c : Ref .container) : Listener → Nat
  | .complete c' => if c' = c then 1 else 0
  | _ => 0

/-- **The countdown and the slots,** after modules have ended. -/
structure Gathering.Counts (x : Gathering) (early : List GatheringMoment) : Prop where
  deliveries : ∀ m ∈ early, m.isDelivery = true
  count : x.remaining + (arrivedIn early).length = x.slots.size
  values : ∀ k v, (k, v) ∈ arrivedIn early → x.slots[k]? = some v

/-- **What comes after the last module has ended:** the moments, the result of the container, and
the results that it took. Only while the callback is being called the gathering is active. -/
inductive Gathering.Phase (x : Gathering) (active : Prop) :
    List GatheringMoment → Option Value → List Value → Prop where
  | waiting : 0 < x.remaining ∨ x.slots.size = 0 → ¬ active → Phase x active [] none []
  | calling : x.remaining = 0 → active →
    Phase x active [.called x.callback x.this x.slots] none []
  | failed (e : HostError) : x.remaining = 0 → ¬ active →
    Phase x active [.called x.callback x.this x.slots, .returned (.error e)] none []
  | completed (v : Value) : x.remaining = 0 → ¬ active →
    Phase x active [.called x.callback x.this x.slots, .returned (.ok v)] (some v) [v]

/-- **The course of a gathering** up to a world. -/
def Gathering.Course (g : Ref .gathering) (x : Gathering) (active : Prop) (w : World) : Prop :=
  ∃ early late, w.gatheringHistory g =
      .opened x.slots.size x.callback x.this x.container :: (early ++ late) ∧
    x.Counts early ∧ x.Phase active late (w.result? x.container) (w.takenSince g x.container)

/-- The gatherings whose callbacks are being called, with their records. -/
abbrev Calling := List (Ref .gathering × Gathering)

/-- **The account of one gathering,** given the listeners in hand. -/
structure Account (i : Calling) (hand : List Listener) (w : World) (g : Ref .gathering)
    (x : Gathering) : Prop where
  /-- For each slot there is one listener, or its module is over. -/
  tokens : ∀ k, w.held (Listener.fills g k) hand + (overIn (w.gatheringHistory g)).count k ≤
    if k < x.slots.size then 1 else 0
  /-- Nobody else can complete the container. -/
  owned : w.held (Listener.completes x.container) hand = 0
  unnumbered : x.container ∉ w.host.containers
  exist : x.container.row < w.containers.size
  current : ∀ y, (g, y) ∈ i → y = x
  course : x.Course g ((g, x) ∈ i) w

/-- **All accounts are kept.** -/
structure Accounted (i : Calling) (hand : List Listener) (w : World) : Prop where
  account : ∀ g x, w.gatherings.get? g = some x → Account i hand w g x
  /-- Nothing is known of gatherings that have not been made. -/
  tokens : ∀ g k, w.gatherings.get? g = none → w.held (Listener.fills g k) hand = 0
  unopened : ∀ g, w.gatherings.get? g = none → w.gatheringHistory g = [] ∧ ∀ y, (g, y) ∉ i
  distinct : ∀ g g' x x', w.gatherings.get? g = some x → w.gatherings.get? g' = some x' →
    x.container = x'.container → g = g'
  /-- Containers are made before they can be completed. -/
  numbered : ∀ c ∈ w.host.containers, c.row < w.containers.size
  completes : ∀ c, w.containers.size ≤ c.row → w.held (Listener.completes c) hand = 0
  prompt : promptCalls w.history

/-! ### Steps that say nothing of gatherings -/

/-- Whether something that happened has nothing to do with gatherings and results. -/
def Moment.isForeign : Moment → Bool
  | .queue _ _ | .call _ => true
  | .container _ (.resolved _) => false
  | .container _ _ => true
  | .gathering _ _ => false

/-- **The history says the same of gatherings.** -/
structure World.SameStory (w w' : World) : Prop where
  gathering : ∀ g, w'.gatheringHistory g = w.gatheringHistory g
  taken : ∀ g c, w'.takenSince g c = w.takenSince g c
  prompt : promptCalls w.history → promptCalls w'.history

namespace World.SameStory

variable {w w' : World}

theorem of_history (h : w'.history = w.history) : SameStory w w' where
  gathering g := by
    unfold gatheringHistory moments
    rw [h]
  taken g c := by
    unfold takenSince
    rw [h]
  prompt hp := by rwa [h]

theorem of_foreign {m : Moment} (hm : m.isForeign = true) (h : w'.history = m :: w.history) :
    SameStory w w' := by
  -- what is foreign is no moment of a gathering, opens none and gives no container its result
  have hg : ∀ g, m.ofGathering? g = none := by
    intro g
    cases m with
    | gathering g' k => exact absurd hm nofun
    | _ => rfl
  have ho : ∀ g, m.opens g = false := by
    intro g
    cases m with
    | gathering g' k => exact absurd hm nofun
    | _ => rfl
  have ht : ∀ c, m.taken? c = none := by
    intro c
    cases m with
    | container c' k =>
      cases k with
      | resolved v => exact absurd hm nofun
      | _ => rfl
    | _ => rfl
  have hs : SameStory (w.mark m) w' := of_history h
  refine ⟨fun g => ?_, fun g c => ?_, fun hp => hs.prompt ?_⟩
  · rw [hs.gathering, gatheringHistory_mark, hg]
    exact List.append_nil _
  · rw [hs.taken, takenSince_mark _ (ho g), ht]
    exact List.append_nil _
  · cases m with
    | gathering g' k => exact absurd hm nofun
    | _ => exact hp

end World.SameStory

section

variable {i i' : Calling} {hand hand' : List Listener} {w w' : World} {g : Ref .gathering}
  {x : Gathering}

/-- An account is kept where none of its listeners is added and its container is left alone. -/
theorem Account.frame (h : Account i hand w g x)
    (hf : ∀ k, w'.held (Listener.fills g k) hand' ≤ w.held (Listener.fills g k) hand)
    (ho : w'.held (Listener.completes x.container) hand' ≤
      w.held (Listener.completes x.container) hand)
    (hn : x.container ∉ w'.host.containers) (hs : w.containers.size ≤ w'.containers.size)
    (hi : ∀ y, (g, y) ∈ i' ↔ (g, y) ∈ i) (hm : w'.gatheringHistory g = w.gatheringHistory g)
    (hr : w'.result? x.container = w.result? x.container)
    (ht : w'.takenSince g x.container = w.takenSince g x.container) : Account i' hand' w' g x where
  -- fewer listeners and no more endings: the bound still holds
  tokens k := by
    rw [hm]
    exact Nat.le_trans (Nat.add_le_add_right (hf k) _) (h.tokens k)
  owned := Nat.eq_zero_of_le_zero (Nat.le_trans ho (Nat.le_of_eq h.owned))
  unnumbered := hn
  exist := Nat.lt_of_lt_of_le h.exist hs
  current y hy := h.current y ((hi y).mp hy)
  course := by
    -- the course speaks of three things of the world, and each is as it was
    have hc := h.course
    unfold Gathering.Course at hc ⊢
    rw [hm, hr, ht, propext (hi x)]
    exact hc

namespace Accounted

/-- All accounts are kept where gatherings are left alone. Containers may be made, and those that
somebody may complete may change. -/
theorem frame (h : Accounted i hand w) (hg : w'.gatherings = w.gatherings)
    (hn : w'.host.containers = w.host.containers)
    (hs : w.containers.size ≤ w'.containers.size)
    (hf : ∀ g k, w'.held (Listener.fills g k) hand' ≤ w.held (Listener.fills g k) hand)
    (ho : ∀ c, c.row < w.containers.size → c ∉ w.host.containers →
      w'.held (Listener.completes c) hand' ≤ w.held (Listener.completes c) hand)
    (hc : ∀ c, w'.containers.size ≤ c.row → w'.held (Listener.completes c) hand' = 0)
    (hr : ∀ g c, c.row < w.containers.size → w.held (Listener.completes c) hand = 0 →
      w'.result? c = w.result? c ∧ w'.takenSince g c = w.takenSince g c)
    (hm : ∀ g, w'.gatheringHistory g = w.gatheringHistory g)
    (hp : promptCalls w.history → promptCalls w'.history) : Accounted i hand' w' where
  account g x hx := by
    rw [hg] at hx
    -- the container of a gathering is one that nobody else may complete
    have ha := h.account g x hx
    have hu : x.container ∉ w'.host.containers := by
      rw [hn]
      exact ha.unnumbered
    obtain ⟨hr, ht⟩ := hr g x.container ha.exist ha.owned
    exact ha.frame (hf g) (ho _ ha.exist ha.unnumbered) hu hs (fun _ => Iff.rfl) (hm g) hr ht
  tokens g k hx := by
    rw [hg] at hx
    exact Nat.eq_zero_of_le_zero (Nat.le_trans (hf g k) (Nat.le_of_eq (h.tokens g k hx)))
  unopened g hx := by
    rw [hg] at hx
    rw [hm g]
    exact h.unopened g hx
  distinct := by
    rw [hg]
    exact h.distinct
  numbered c hc := by
    rw [hn] at hc
    exact Nat.lt_of_lt_of_le (h.numbered c hc) hs
  completes := hc
  prompt := hp h.prompt

/-- The same where no container is made or takes a result. -/
theorem frame_same (h : Accounted i hand w) (hg : w'.gatherings = w.gatherings)
    (hn : w'.host.containers = w.host.containers) (hs : w'.containers.size = w.containers.size)
    (hr : ∀ c, w'.result? c = w.result? c) (hst : World.SameStory w w')
    (hf : ∀ g k, w'.held (Listener.fills g k) hand' ≤ w.held (Listener.fills g k) hand)
    (ho : ∀ c, w'.held (Listener.completes c) hand' ≤ w.held (Listener.completes c) hand) :
    Accounted i hand' w' := by
  refine h.frame hg hn (Nat.le_of_eq hs.symm) hf (fun c _ _ => ho c) (fun c hc => ?_)
    (fun g c _ _ => ⟨hr c, hst.taken g c⟩) hst.gathering hst.prompt
  rw [hs] at hc
  exact Nat.eq_zero_of_le_zero (Nat.le_trans (ho c) (Nat.le_of_eq (h.completes c hc)))

/-- Only the listeners in hand have changed. -/
theorem frame_hand (h : Accounted i hand w)
    (hf : ∀ g k, w.held (Listener.fills g k) hand' ≤ w.held (Listener.fills g k) hand)
    (ho : ∀ c, w.held (Listener.completes c) hand' ≤ w.held (Listener.completes c) hand) :
    Accounted i hand' w :=
  h.frame_same rfl rfl rfl (fun _ => rfl) (.of_history rfl) hf ho

theorem drop {l : Listener} (h : Accounted i (l :: hand) w) : Accounted i hand w := by
  refine h.frame_hand (fun g k => ?_) fun c => ?_
  · rw [World.held_cons]
    exact Nat.le_add_left _ _
  · rw [World.held_cons]
    exact Nat.le_add_left _ _

/-- A listener that neither fills a slot nor completes a container may come in hand. -/
theorem routine (r : Routine) (h : Accounted i hand w) : Accounted i (.routine r :: hand) w := by
  refine h.frame_hand (fun g k => ?_) fun c => ?_
  · rw [World.held_cons]
    exact Nat.le_of_eq (Nat.zero_add _)
  · rw [World.held_cons]
    exact Nat.le_of_eq (Nat.zero_add _)

theorem rearranged (hs : World.Rearranged w w') (h : Accounted i hand w) : Accounted i hand w' := by
  refine h.frame_same hs.gatherings hs.numbered (by rw [hs.containers]) (fun c => ?_)
    (.of_history hs.history) (fun g k => ?_) fun c => ?_
  -- results are read off the containers, and these have not changed
  · rw [World.result?, World.container, hs.containers]
    rfl
  · exact Nat.le_of_eq (World.held_rearranged _ _ hs)
  · exact Nat.le_of_eq (World.held_rearranged _ _ hs)

/-- Something happened that has nothing to do with gatherings. -/
theorem mark {m : Moment} (hm : m.isForeign = true) (h : Accounted i hand w) :
    Accounted i hand (w.mark m) :=
  h.frame_same rfl rfl rfl (fun _ => rfl) (.of_foreign hm rfl) (fun _ _ => Nat.le_refl _)
    fun _ => Nat.le_refl _

theorem clearQueue (c : Ref .context) (h : Accounted i hand w) : Accounted i hand (w.clearQueue c) :=
  h.frame_same rfl rfl rfl (fun _ => rfl) (.of_foreign rfl rfl)
    (fun _ _ => World.held_clearQueue_le _ _ w c) fun _ => World.held_clearQueue_le _ _ w c

end Accounted

end

end ScriptModules
