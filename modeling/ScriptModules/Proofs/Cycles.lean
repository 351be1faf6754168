import Mathlib.Data.List.Forall2
import Mathlib.Logic.Relation
import ScriptModules.Proofs.Conversions

/-!
# Which values have a JSON form

The JSON form of a value goes into lists, objects and the results of containers, one unit of fuel for
each on a path. A value that holds itself on some path has none. All others have one
(`Value.toJson?_isSome_iff`): a path without a cycle meets nothing twice, so the number of things that
hold others bounds its length. And what is found with any fuel is the JSON form
(`Value.toJson?_of_toJsonIn`).
-/

namespace ScriptModules

/-- What stands in a list after a partial function was applied to all of it. -/
theorem mapM_eq_some_iff {α β : Type} {f : α → Option β} {l : List α} {bs : List β} :
    l.mapM f = some bs ↔ List.Forall₂ (fun a b => f a = some b) l bs := by
  induction l generalizing bs with
  | nil =>
    rw [List.mapM_nil, List.forall₂_nil_left_iff]
    exact ⟨fun h => (Option.some.inj h).symm, fun h => congrArg some h.symm⟩
  | cons a rest ih =>
    rw [List.mapM_cons]
    constructor
    · intro h
      obtain ⟨b, hb, hrest⟩ := Option.bind_eq_some_iff.1 h
      obtain ⟨cs, hcs, hbs⟩ := Option.bind_eq_some_iff.1 hrest
      rw [← Option.some.inj hbs]
      exact .cons hb (ih.1 hcs)
    · intro h
      cases h with
      | cons hb hrest =>
        exact Option.bind_eq_some_iff.2 ⟨_, hb, Option.bind_eq_some_iff.2 ⟨_, ih.2 hrest, rfl⟩⟩

/-- All of that comes from the list. -/
theorem exists_of_mem_mapM {α β : Type} {f : α → Option β} {l : List α} {bs : List β}
    (h : l.mapM f = some bs) {b : β} (hb : b ∈ bs) : ∃ a ∈ l, f a = some b := by
  have hall := mapM_eq_some_iff.1 h
  induction hall with
  | nil => cases hb
  | @cons a b' rest bs hfirst hrest ih =>
    rcases List.mem_cons.1 hb with rfl | hb
    · exact ⟨a, List.mem_cons_self, hfirst⟩
    · obtain ⟨a', ha', hb⟩ := ih (mapM_eq_some_iff.2 hrest) hb
      exact ⟨a', List.mem_cons_of_mem _ ha', hb⟩

/-- It may be applied to all of it if to each. -/
theorem isSome_mapM_iff {α β : Type} {f : α → Option β} {l : List α} :
    (l.mapM f).isSome ↔ ∀ a ∈ l, (f a).isSome := by
  induction l with
  | nil => simp
  | cons a rest ih =>
    rw [List.mapM_cons, List.forall_mem_cons, ← ih]
    cases f a with
    | none => simp
    | some b => cases rest.mapM f <;> simp

namespace Value

variable {w : World} {v u : Value} {n : Nat}

/-! ### Values in values -/

/-- **One value lies in another:** as an item of a list, under a key of an object, or as the result of
a container. -/
def Contains (w : World) : Value → Value → Prop
  | list l, u => u ∈ (w.items l).toList
  | object o, u => ∃ key, (key, u) ∈ (w.object o).properties.entries
  | container c, u => w.result? c = some u
  | _, _ => False

/-- **A value without cycles:** nothing that can be reached from it lies in itself, not even through
others. -/
def Acyclic (w : World) (v : Value) : Prop :=
  ∀ u, Relation.ReflTransGen (Contains w) v u → ¬ Relation.TransGen (Contains w) u u

theorem Acyclic.of_contains (h : v.Acyclic w) (hu : v.Contains w u) : u.Acyclic w :=
  fun x hx => h x (.head hu hx)

/-- What contains another is a list, an object or a container of the world. -/
theorem Contains.holds (h : v.Contains w u) : v.Holds w := by
  cases v with
  | list l =>
    show l.row < w.lists.size
    by_contra hge
    have h : u ∈ (w.items l).toList := h
    rw [items_of_size_le (Nat.le_of_not_lt hge)] at h
    cases h
  | object o =>
    show o.row < w.objects.size
    by_contra hge
    obtain ⟨key, hmem⟩ := h
    have hnone : w.objects.get? o = none := Array.getElem?_eq_none (Nat.le_of_not_lt hge)
    rw [World.object, hnone] at hmem
    cases hmem
  | container c =>
    show c.row < w.containers.size
    by_contra hge
    have h : (w.container c).result? = some u := h
    have hnone : w.containers.get? c = none := Array.getElem?_eq_none (Nat.le_of_not_lt hge)
    rw [World.container, hnone] at h
    cases h
  | _ => exact h.elim

/-! ### One step of the conversion -/

/-- One step of the conversion to JSON, given the forms of what lies in the value. -/
def jsonStep (w : World) (f : Value → Option Json) : Value → Option Json
  | list l => ((w.items l).toList.mapM f).map .list
  | object o =>
    ((w.object o).properties.entries.mapM fun p => (f p.2).map fun j => (p.1, j)).map
      fun fields => .object (Json.sortFields fields)
  | container c =>
    match w.result? c with
    | some v => f v
    | none => some .null
  | v => toJsonIn w 0 v

theorem toJsonIn_succ (w : World) (n : Nat) (v : Value) :
    toJsonIn w (n + 1) v = jsonStep w (toJsonIn w n) v := by
  cases v <;> rfl

/-- A step goes through if it does for all that lies in the value. -/
theorem isSome_jsonStep_iff {f : Value → Option Json} :
    (jsonStep w f v).isSome ↔ ∀ u, v.Contains w u → (f u).isSome := by
  cases v with
  | list l =>
    rw [jsonStep, Option.isSome_map, isSome_mapM_iff]
    rfl
  | object o =>
    rw [jsonStep, Option.isSome_map, isSome_mapM_iff]
    simp only [Option.isSome_map]
    exact ⟨fun h u ⟨key, hu⟩ => h (key, u) hu, fun h p hp => h p.2 ⟨p.1, hp⟩⟩
  | container c =>
    show (match w.result? c with
      | some r => f r
      | none => some .null).isSome ↔ ∀ u, w.result? c = some u → (f u).isSome
    cases w.result? c with
    | none => exact ⟨fun _ u hu => absurd hu nofun, fun _ => rfl⟩
    | some r =>
      refine ⟨fun h u hu => ?_, fun h => h r rfl⟩
      obtain rfl := Option.some.inj hu
      exact h
  | _ => exact ⟨fun _ u hu => hu.elim, fun _ => rfl⟩

theorem jsonStep_noLess {f g : Value → Option Json} (h : NoLess f g) :
    NoLess (jsonStep w f) (jsonStep w g) := by
  intro v j hj
  cases v with
  | list l =>
    obtain ⟨js, hjs, rfl⟩ := Option.map_eq_some_iff.1 hj
    exact Option.map_eq_some_iff.2 ⟨js, mapM_noLess h hjs, rfl⟩
  | object o =>
    obtain ⟨fields, hfields, rfl⟩ := Option.map_eq_some_iff.1 hj
    refine Option.map_eq_some_iff.2 ⟨fields, mapM_noLess (fun p field hp => ?_) hfields, rfl⟩
    obtain ⟨j, hj, rfl⟩ := Option.map_eq_some_iff.1 hp
    exact Option.map_eq_some_iff.2 ⟨j, h p.2 j hj, rfl⟩
  | container c =>
    unfold jsonStep at hj ⊢
    dsimp only at hj ⊢
    cases hc : w.result? c with
    | none => rwa [hc] at hj
    | some r =>
      rw [hc] at hj
      exact h r j hj
  | _ => exact hj

/-- More fuel takes no form back. -/
theorem toJsonIn_noLess {m : Nat} (h : n ≤ m) : NoLess (toJsonIn w n) (toJsonIn w m) := by
  refine noLess_of_le (toJsonIn w) (jsonStep w) (toJsonIn_succ w) jsonStep_noLess ?_ h
  intro v j hj
  cases v with
  | list | object | container => cases hj
  | _ => exact hj

/-! ### Which values have a form -/

/-- What lies in a value that has a form has one with less fuel. -/
theorem exists_of_contains (h : (toJsonIn w n v).isSome) (hu : v.Contains w u) :
    ∃ m < n, (toJsonIn w m u).isSome := by
  cases n with
  | zero =>
    cases v with
    | list | object | container => cases h
    | _ => exact hu.elim
  | succ n =>
    rw [toJsonIn_succ] at h
    exact ⟨n, Nat.lt_succ_self n, isSome_jsonStep_iff.1 h u hu⟩

theorem exists_of_transGen (h : (toJsonIn w n v).isSome)
    (hu : Relation.TransGen (Contains w) v u) : ∃ m < n, (toJsonIn w m u).isSome := by
  induction hu with
  | single hu => exact exists_of_contains h hu
  | tail _ hu ih =>
    obtain ⟨m, hm, hsome⟩ := ih
    obtain ⟨k, hk, hsome⟩ := exists_of_contains hsome hu
    exact ⟨k, Nat.lt_trans hk hm, hsome⟩

/-- What has a form does not lie in itself: its form would be found with ever less fuel. -/
theorem not_transGen_of_isSome (h : (toJsonIn w n v).isSome) :
    ¬ Relation.TransGen (Contains w) v v := by
  intro hcycle
  induction n using Nat.strong_induction_on with
  | _ n ih =>
    obtain ⟨m, hm, hsome⟩ := exists_of_transGen h hcycle
    exact ih m hm hsome

theorem acyclic_of_isSome (h : (toJsonIn w n v).isSome) : v.Acyclic w := by
  intro u hu
  rcases Relation.reflTransGen_iff_eq_or_transGen.1 hu with rfl | hu
  · exact not_transGen_of_isSome h
  · obtain ⟨m, -, hsome⟩ := exists_of_transGen h hu
    exact not_transGen_of_isSome hsome

/-- On the way into a value without cycles, fuel for all things that hold others is enough: `above`
are those that were entered. -/
theorem isSome_of_acyclic {above : List Value} (habove : Above w above)
    (hinside : ∀ u ∈ above, Relation.TransGen (Contains w) u v) (hv : v.Acyclic w)
    (hn : holderCount w < n + above.length) : (toJsonIn w n v).isSome := by
  induction n generalizing above v with
  | zero =>
    have hlength := habove.length_le
    omega
  | succ n ih =>
    rw [toJsonIn_succ, isSome_jsonStep_iff]
    intro u hu
    -- the value was not met on the way, for it would be a cycle
    have hnew : v ∉ above := fun hmem => hv v .refl (hinside v hmem)
    have habove' : Above w (v :: above) :=
      ⟨List.nodup_cons.2 ⟨hnew, habove.distinct⟩, fun x hx => by
        rcases List.mem_cons.1 hx with rfl | hx
        · exact hu.holds
        · exact habove.holds x hx⟩
    refine ih habove' (fun x hx => ?_) (hv.of_contains hu) ?_
    · rcases List.mem_cons.1 hx with rfl | hx
      · exact .single hu
      · exact (hinside x hx).tail hu
    · rw [List.length_cons]
      omega

/-- **The values without cycles are those that have a JSON form.** -/
theorem toJson?_isSome_iff : (v.toJson? w).isSome ↔ v.Acyclic w := by
  refine ⟨acyclic_of_isSome, fun h => ?_⟩
  have habove : Above w [] := ⟨List.nodup_nil, nofun⟩
  exact isSome_of_acyclic habove nofun h (Nat.lt_succ_self _)

/-- **What is found with any fuel is the JSON form.** -/
theorem toJson?_of_toJsonIn {j : Json} (h : toJsonIn w n v = some j) : v.toJson? w = some j := by
  obtain ⟨j', hj'⟩ := Option.isSome_iff_exists.1
    (toJson?_isSome_iff.2 (acyclic_of_isSome (Option.isSome_iff_exists.2 ⟨j, h⟩)))
  rcases Nat.le_total n (holderCount w + 1) with hle | hle
  · exact toJsonIn_noLess hle v j h
  · have hsame := toJsonIn_noLess hle v j' hj'
    rw [h] at hsame
    rw [hj', hsame]

end Value

end ScriptModules
