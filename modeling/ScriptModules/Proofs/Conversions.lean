import Mathlib.Data.Finset.Card
import ScriptModules.Value.Convert

/-!
# How much fuel a conversion needs

The text and the number of a value enter lists, one unit of fuel for each list on a path. More fuel never
takes an answer back, and as soon as one more unit makes no difference no other does. As long as it makes
one, it does so for one list more; so the number of lists bounds what is needed, and one more unit for
values that mention no list at all (`Value.toTextIn_stable`, `Value.toNumberIn_stable`).

A picture enters nothing twice on one path, so the number of things that hold others bounds what it
needs (`Value.pictureIn_stable`).
-/

namespace ScriptModules

/-- **A chain of sets that stands still for good once it stands still** does so at its bound. -/
theorem exists_stands_still {D : Nat → Finset Nat} {N : Nat} (mono : ∀ n, D n ⊆ D (n + 1))
    (bound : ∀ n, (D n).card ≤ N) : ∃ n ≤ N, D n = D (n + 1) := by
  by_contra hnone
  have grows : ∀ n ≤ N + 1, n ≤ (D n).card := by
    intro n hn
    induction n with
    | zero => exact Nat.zero_le _
    | succ n ih =>
      have hne : D n ≠ D (n + 1) := fun heq => hnone ⟨n, by omega, heq⟩
      have hlt := Finset.card_lt_card ((mono n).ssubset_of_ne hne)
      have hn := ih (by omega)
      omega
  have hfull := grows (N + 1) (Nat.le_refl _)
  have hbound := bound (N + 1)
  omega

namespace Value

/-- An answer is not taken back. -/
def NoLess {α : Type} (f g : Value → Option α) : Prop := ∀ v a, f v = some a → g v = some a

section

variable {w : World} {α : Type} (conv : Nat → Value → Option α)
  (step : (Value → Option α) → Value → Option α)
  (unfolds : ∀ n v, conv (n + 1) v = step (conv n) v)
  (mono : ∀ {f g}, NoLess f g → NoLess (step f) (step g))
  (begins : NoLess (conv 0) (conv 1))
  (other : ∀ v, (∀ l, v = .list l → w.lists.size ≤ l.row) → (conv 1 v).isSome)

include unfolds mono begins

theorem noLess_of_le {n m : Nat} (h : n ≤ m) : NoLess (conv n) (conv m) := by
  have hsucc : ∀ n, NoLess (conv n) (conv (n + 1)) := by
    intro n
    induction n with
    | zero => exact begins
    | succ n ih =>
      intro v a h
      rw [unfolds] at h ⊢
      exact mono ih v a h
  induction h with
  | refl => exact fun _ _ => id
  | step _ ih => exact fun v a hv => hsucc _ v a (ih v a hv)

include other

/-- If no list gains an answer by one more unit of fuel, no value does. -/
theorem conversion_eq_succ {n : Nat}
    (h : ∀ l : Ref .list, l.row < w.lists.size → (conv (n + 2) (.list l)).isSome →
      (conv (n + 1) (.list l)).isSome) : conv (n + 1) = conv (n + 2) := by
  funext v
  have hless := noLess_of_le conv step unfolds mono begins (Nat.le_succ (n + 1)) v
  have hsome : (conv (n + 2) v).isSome → (conv (n + 1) v).isSome := by
    intro hv
    by_cases hlist : ∃ l, v = .list l ∧ l.row < w.lists.size
    · obtain ⟨l, rfl, hlt⟩ := hlist
      exact h l hlt hv
    -- what is no list of the world has its answer from the first unit on
    · have hfirst := other v fun l hl => Nat.le_of_not_lt fun hlt => hlist ⟨l, hl, hlt⟩
      obtain ⟨a, ha⟩ := Option.isSome_iff_exists.mp hfirst
      exact Option.isSome_iff_exists.mpr
        ⟨a, noLess_of_le conv step unfolds mono begins (Nat.le_add_left 1 n) v a ha⟩
  cases hv : conv (n + 1) v with
  | some a => exact (hless a hv).symm
  | none =>
    cases hv' : conv (n + 2) v with
    | none => rfl
    | some a =>
      have habsurd := hsome (Option.isSome_iff_exists.mpr ⟨a, hv'⟩)
      rw [hv] at habsurd
      cases habsurd

/-- **A conversion that enters lists** needs one unit of fuel more than there are lists. -/
theorem conversion_stable {n : Nat} (hn : w.lists.size + 1 ≤ n) :
    conv n = conv (w.lists.size + 1) := by
  -- the lists that have an answer with a given fuel
  let D : Nat → Finset Nat := fun n =>
    (Finset.range w.lists.size).filter fun r => (conv (n + 1) (.list ⟨r⟩)).isSome
  have hmono : ∀ n, D n ⊆ D (n + 1) := by
    intro n r hr
    obtain ⟨hlt, hsome⟩ := Finset.mem_filter.mp hr
    obtain ⟨a, ha⟩ := Option.isSome_iff_exists.mp hsome
    have hmore := noLess_of_le conv step unfolds mono begins (Nat.le_succ (n + 1)) _ a ha
    exact Finset.mem_filter.mpr ⟨hlt, Option.isSome_iff_exists.mpr ⟨a, hmore⟩⟩
  have hbound : ∀ n, (D n).card ≤ w.lists.size := fun n =>
    (Finset.card_filter_le _ _).trans (Nat.le_of_eq (Finset.card_range _))
  obtain ⟨m, hm, hstill⟩ := exists_stands_still hmono hbound
  have heq : conv (m + 1) = conv (m + 2) := by
    refine conversion_eq_succ conv step unfolds mono begins other fun l hlt hsome => ?_
    have hmem : l.row ∈ D (m + 1) := Finset.mem_filter.mpr ⟨Finset.mem_range.mpr hlt, hsome⟩
    rw [← hstill] at hmem
    exact (Finset.mem_filter.mp hmem).2
  have hstable : ∀ k, conv (m + 1 + k) = conv (m + 1) := by
    intro k
    induction k with
    | zero => rfl
    | succ k ih =>
      have hstep : conv (m + 1 + k + 1) = conv (m + 2) := by
        funext v
        rw [unfolds, ih, ← unfolds]
      exact hstep.trans heq.symm
  obtain ⟨k, rfl⟩ : ∃ k, n = m + 1 + k := ⟨n - (m + 1), by omega⟩
  obtain ⟨k', hk'⟩ : ∃ k', w.lists.size + 1 = m + 1 + k' := ⟨w.lists.size - m, by omega⟩
  rw [hstable, hk', hstable]

end

variable {w : World}

theorem items_of_size_le {l : Ref .list} (h : w.lists.size ≤ l.row) : w.items l = #[] := by
  have hnone : w.lists.get? l = none := Array.getElem?_eq_none h
  rw [World.items, hnone]
  rfl

/-! ### Texts -/

theorem mapM_noLess {α β : Type} {f g : α → Option β} (h : ∀ a b, f a = some b → g a = some b)
    {l : List α} {bs : List β} (hl : l.mapM f = some bs) : l.mapM g = some bs := by
  induction l generalizing bs with
  | nil => exact hl
  | cons a rest ih =>
    rw [List.mapM_cons] at hl ⊢
    obtain ⟨b, hb, hrest⟩ := Option.bind_eq_some_iff.mp hl
    obtain ⟨cs, hcs, hbs⟩ := Option.bind_eq_some_iff.mp hrest
    exact Option.bind_eq_some_iff.mpr ⟨b, h a b hb, Option.bind_eq_some_iff.mpr ⟨cs, ih hcs, hbs⟩⟩

/-- One step of the conversion to text, given the texts of items. -/
def textStep (w : World) (f : Value → Option String) : Value → Option String
  | list l =>
    ((w.items l).toList.mapM fun (v : Value) => if v.isNullish then some "" else f v).map (Text.joined ",")
  | v => toTextIn w 0 v

/-- **More fuel than that makes no difference to a text.** -/
theorem toTextIn_stable {n : Nat} (hn : w.lists.size + 1 ≤ n) : toTextIn w n = toText? w := by
  -- the step is what more fuel unfolds, it loses no text, and lists alone take fuel
  refine conversion_stable (toTextIn w) (textStep w) ?_ ?_ ?_ ?_ hn
  · intro n v
    cases v <;> rfl
  · intro f g hfg v s hs
    cases v with
    | list l =>
      obtain ⟨ts, hts, rfl⟩ := Option.map_eq_some_iff.mp hs
      refine Option.map_eq_some_iff.mpr ⟨ts, mapM_noLess (fun v t ht => ?_) hts, rfl⟩
      split at ht
      · rename_i hv
        rw [if_pos hv]
        exact ht
      · rename_i hv
        rw [if_neg hv]
        exact hfg v t ht
    | _ => exact hs
  · intro v s hs
    cases v with
    | list l => cases hs
    | _ => exact hs
  · intro v hv
    cases v with
    | list l =>
      rw [toTextIn, items_of_size_le (hv l rfl)]
      rfl
    | _ => rfl

/-! ### Numbers -/

/-- One step of the conversion to a number, given the numbers of items. -/
def numberStep (w : World) (f : Value → Option Float) : Value → Option Float
  | list l =>
    match (w.items l).toList with
    | [] => some 0.0
    | [v] => f v
    | _ => some Number.nan
  | v => toNumberIn w 0 v

/-- **More fuel than that makes no difference to a number.** -/
theorem toNumberIn_stable {n : Nat} (hn : w.lists.size + 1 ≤ n) :
    toNumberIn w n = toNumber? w := by
  refine conversion_stable (toNumberIn w) (numberStep w) ?_ ?_ ?_ ?_ hn
  · intro n v
    cases v <;> rfl
  · intro f g hfg v x hx
    cases v with
    | list l =>
      unfold numberStep at hx ⊢
      dsimp only at hx ⊢
      split at hx
      · exact hx
      · exact hfg _ x hx
      · exact hx
    | _ => exact hx
  · intro v x hx
    cases v with
    | list l => cases hx
    | _ => exact hx
  · intro v hv
    cases v with
    | list l =>
      rw [toNumberIn, items_of_size_le (hv l rfl)]
      rfl
    | _ => rfl

/-! ### Pictures -/

/-- A list, an object or a container of the world. -/
def Holds (w : World) : Value → Prop
  | list l => l.row < w.lists.size
  | object o => o.row < w.objects.size
  | container c => c.row < w.containers.size
  | _ => False

/-- Where such a thing stands if lists come first, then objects, then containers. -/
def place (w : World) : Value → Nat
  | list l => l.row
  | object o => w.lists.size + o.row
  | container c => w.lists.size + w.objects.size + c.row
  | _ => 0

theorem place_lt {v : Value} (h : v.Holds w) : v.place w < holderCount w := by
  unfold holderCount
  cases v with
  | list l =>
    have h : l.row < w.lists.size := h
    show l.row < _
    omega
  | object o =>
    have h : o.row < w.objects.size := h
    show w.lists.size + o.row < _
    omega
  | container c =>
    have h : c.row < w.containers.size := h
    show w.lists.size + w.objects.size + c.row < _
    omega
  | _ => exact h.elim

theorem place_inj {v u : Value} (hv : v.Holds w) (hu : u.Holds w) (h : v.place w = u.place w) :
    v = u := by
  have row_inj : ∀ {k : Kind} {r s : Ref k}, r.row = s.row → r = s := by
    rintro k ⟨r⟩ ⟨s⟩ hr
    exact congrArg Ref.mk hr
  cases v <;> cases u <;> simp only [Holds, place] at hv hu h
  -- things of different kinds stand apart
  all_goals first
    | omega
    | exact congrArg _ (row_inj (by omega))

/-- What is being looked into: different things of the world. -/
structure Above (w : World) (above : List Value) : Prop where
  distinct : above.Nodup
  holds : ∀ v ∈ above, v.Holds w

theorem Above.length_le {above : List Value} (h : Above w above) : above.length ≤ holderCount w := by
  have hplaces : (above.map (·.place w)).Nodup :=
    h.distinct.map_on fun v hv u hu => place_inj (h.holds v hv) (h.holds u hu)
  have hsub : above.map (·.place w) ⊆ List.range (holderCount w) := by
    intro n hn
    obtain ⟨v, hv, rfl⟩ := List.mem_map.mp hn
    exact List.mem_range.mpr (place_lt (h.holds v hv))
  calc above.length = (above.map (·.place w)).length := (List.length_map _).symm
    _ ≤ (List.range (holderCount w)).length := (List.subperm_of_subset hplaces hsub).length_le
    _ = holderCount w := List.length_range

/-- One looks into something that was not met. -/
theorem Above.cons {above : List Value} (h : Above w above) {v : Value} (hv : v.Holds w)
    (hnew : above.any v.strictEquals = false) : Above w (v :: above) where
  distinct := by
    refine List.nodup_cons.mpr ⟨fun hmem => ?_, h.distinct⟩
    have hself : v.strictEquals v = true := by
      cases v with
      | list | object | container => exact beq_self_eq_true _
      | _ => exact hv.elim
    have hany := List.any_eq_true.mpr ⟨v, hmem, hself⟩
    rw [hnew] at hany
    cases hany
  holds u hu := by
    rcases List.mem_cons.mp hu with rfl | hu
    · exact hv
    · exact h.holds u hu

theorem pictureIn_succ {n : Nat} {above : List Value} (h : Above w above)
    (hn : holderCount w < n + above.length) (v : Value) :
    pictureIn w (n + 1) above v = pictureIn w n above v := by
  induction n generalizing above v with
  | zero =>
    have hlength := h.length_le
    omega
  | succ n ih =>
    have hinner : ∀ u : Value, u.Holds w → above.any u.strictEquals = false → ∀ v,
        pictureIn w (n + 1) (u :: above) v = pictureIn w n (u :: above) v := by
      intro u hu hnew
      refine ih (h.cons hu hnew) ?_
      rw [List.length_cons]
      omega
    -- what is no thing of the world has nothing inside
    cases v with
    | list l =>
      rw [pictureIn, pictureIn]
      split
      · rfl
      · next hmet =>
        by_cases hl : l.row < w.lists.size
        · rw [funext (hinner (.list l) hl (Bool.eq_false_iff.mpr hmet))]
        · rw [items_of_size_le (Nat.le_of_not_lt hl)]
          rfl
    | object o =>
      rw [pictureIn, pictureIn]
      split
      · rfl
      · next hmet =>
        by_cases ho : o.row < w.objects.size
        · simp only [funext (hinner (.object o) ho (Bool.eq_false_iff.mpr hmet))]
        · have hnone : w.objects.get? o = none := Array.getElem?_eq_none (Nat.le_of_not_lt ho)
          rw [World.object, hnone]
          rfl
    | container c =>
      rw [pictureIn, pictureIn]
      split
      · rfl
      · next hmet =>
        by_cases hc : c.row < w.containers.size
        · simp only [funext (hinner (.container c) hc (Bool.eq_false_iff.mpr hmet))]
        · have hnone : w.containers.get? c = none := Array.getElem?_eq_none (Nat.le_of_not_lt hc)
          rw [World.container, hnone]
          rfl
    | _ => rfl

/-- **More fuel than that makes no difference to a picture.** -/
theorem pictureIn_stable {n : Nat} (hn : holderCount w + 1 ≤ n) (v : Value) :
    pictureIn w n [] v = v.picture w := by
  induction n, hn using Nat.le_induction with
  | base => rfl
  | succ n hn ih =>
    rw [pictureIn_succ ⟨List.nodup_nil, fun _ h => nomatch h⟩ hn, ih]

end Value

end ScriptModules
