import ScriptModules.Loop.Container
import Mathlib.Data.List.Nodup
import Mathlib.Data.List.Perm.Subperm

/-!
# Chains of results

The result of a container may be a container again. `World.Chain` follows such a chain to its end:
a value that is no container, or a container that is still pending. A chain that has an end passes
no container twice (`Chain.nodup`), so it is no longer than there are containers. That is why the
fuel of `Run.unwrap` is enough: `unwrap_of_chain` and `chain_of_unwrap` say that it finds the end of
every chain that has one, and that it is exhausted by the others only.
-/

namespace ScriptModules

/-- **The chain of results** that begins with a value: the containers that it passes, and the value
that it ends in, unless it ends in a pending container. -/
inductive World.Chain (w : World) : Value → List (Ref .container) → Option Value → Prop where
  | plain {v : Value} : (∀ c, v ≠ .container c) → Chain w v [] (some v)
  | pending {c : Ref .container} : w.result? c = none → Chain w (.container c) [] none
  | pass {c : Ref .container} {v : Value} {cs : List (Ref .container)} {e : Option Value} :
    w.result? c = some v → Chain w v cs e → Chain w (.container c) (c :: cs) e

namespace World.Chain

variable {w w' : World} {v : Value} {cs cs' : List (Ref .container)} {e e' : Option Value}

/-- Results are all that a chain depends on. -/
theorem of_same (h : w.Chain v cs e) (hr : ∀ c, w'.result? c = w.result? c) : w'.Chain v cs e := by
  induction h with
  | plain hv => exact .plain hv
  | pending hc => exact .pending ((hr _).trans hc)
  | pass hc _ ih => exact .pass ((hr _).trans hc) ih

/-- **A value begins one chain only.** -/
theorem unique (h : w.Chain v cs e) (h' : w.Chain v cs' e') : cs = cs' ∧ e = e' := by
  induction h generalizing cs' with
  | plain hv =>
    cases h' with
    | plain _ => exact ⟨rfl, rfl⟩
    | pending _ | pass _ _ => exact absurd rfl (hv _)
  | pending hc =>
    cases h' with
    | plain hv => exact absurd rfl (hv _)
    | pending _ => exact ⟨rfl, rfl⟩
    | pass hc' _ =>
      rw [hc] at hc'
      cases hc'
  | pass hc _ ih =>
    cases h' with
    | plain hv => exact absurd rfl (hv _)
    | pending hc' =>
      rw [hc] at hc'
      cases hc'
    | pass hc' hrest =>
      rw [hc] at hc'
      obtain rfl := Option.some.inj hc'
      obtain ⟨hcs, he⟩ := ih hrest
      exact ⟨congrArg _ hcs, he⟩

/-- A chain goes on from each container that it passes. -/
theorem from_mem (h : w.Chain v cs e) {c : Ref .container} (hc : c ∈ cs) :
    ∃ rest, rest.length < cs.length ∧ w.Chain (.container c) (c :: rest) e := by
  induction h with
  | plain _ | pending _ => exact absurd hc List.not_mem_nil
  | @pass c' _ cs _ hr hrest ih =>
    rcases List.mem_cons.1 hc with rfl | hc
    · exact ⟨cs, Nat.lt_succ_self _, .pass hr hrest⟩
    · obtain ⟨rest, hlt, hchain⟩ := ih hc
      exact ⟨rest, Nat.lt_succ_of_lt hlt, hchain⟩

/-- **A chain passes no container twice,** since it would go on from there in two ways. -/
theorem nodup (h : w.Chain v cs e) : cs.Nodup := by
  induction h with
  | plain _ | pending _ => exact List.nodup_nil
  | @pass c _ cs _ hr hrest ih =>
    refine List.nodup_cons.2 ⟨fun hc => ?_, ih⟩
    obtain ⟨rest, hlt, hagain⟩ := hrest.from_mem hc
    have hsame : rest = cs := (List.cons.inj (hagain.unique (.pass hr hrest)).1).2
    rw [hsame] at hlt
    exact Nat.lt_irrefl _ hlt

/-- A chain passes containers that exist. -/
theorem exist (h : w.Chain v cs e) : ∀ c ∈ cs, c.row < w.containers.size := by
  induction h with
  | plain _ | pending _ => exact nofun
  | @pass c _ cs _ hr _ ih =>
    intro c' hc'
    rcases List.mem_cons.1 hc' with rfl | hc'
    · refine Nat.lt_of_not_le fun hle => ?_
      have hnone : w.containers.get? c' = none := Array.getElem?_eq_none hle
      rw [World.result?, World.container, hnone] at hr
      cases hr
    · exact ih c' hc'

theorem length_le (h : w.Chain v cs e) : cs.length ≤ w.containers.size := by
  have hrows : (cs.map Ref.row).Nodup := h.nodup.map fun a b hab => by
    cases a
    cases b
    exact congrArg Ref.mk hab
  have hsub : cs.map Ref.row ⊆ List.range w.containers.size := by
    intro row hrow
    obtain ⟨c, hc, rfl⟩ := List.mem_map.1 hrow
    exact List.mem_range.2 (h.exist c hc)
  calc cs.length = (cs.map Ref.row).length := (List.length_map _).symm
    _ ≤ (List.range w.containers.size).length := (List.subperm_of_subset hrows hsub).length_le
    _ = w.containers.size := List.length_range

/-- The end of a chain is no container. -/
theorem end_plain {u : Value} (h : w.Chain v cs (some u)) : ∀ c, u ≠ .container c := by
  generalize he : some u = e at h
  induction h with
  | plain hv =>
    obtain rfl := Option.some.inj he
    exact hv
  | pending _ => cases he
  | pass _ _ ih => exact ih he

end World.Chain

/-! ### Unwrapping -/

/-- What the end of a chain means to the script that asked for it. -/
def chainOutcome (script : String) : Option Value → Except HostError Value
  | some v => .ok v
  | none => .error (.unresolved script)

namespace Run

variable {w : World} {v : Value} {cs : List (Ref .container)} {e : Option Value}

theorem unwrapIn_plain (script : String) (fuel : Nat) (hv : ∀ c, v ≠ .container c) :
    unwrapIn script fuel v w = (.done v, w) := by
  cases v with
  | container c => exact absurd rfl (hv c)
  | _ => cases fuel <;> rfl

theorem unwrapIn_pending (script : String) (fuel : Nat) {c : Ref .container}
    (hc : w.result? c = none) :
    unwrapIn script (fuel + 1) (.container c) w = (.failed (.unresolved script), w) := by
  rw [unwrapIn, bind_of_done (read_apply _ _), hc]
  rfl

theorem unwrapIn_pass (script : String) (fuel : Nat) {c : Ref .container}
    (hc : w.result? c = some v) :
    unwrapIn script (fuel + 1) (.container c) w = unwrapIn script fuel v w := by
  rw [unwrapIn, bind_of_done (read_apply _ _), hc]

/-- Fuel beyond the length of a chain leads to its end. -/
theorem unwrapIn_of_chain (script : String) {fuel : Nat} (h : w.Chain v cs e)
    (hf : cs.length < fuel) : unwrapIn script fuel v w = ofExcept (chainOutcome script e) w := by
  induction h generalizing fuel with
  | plain hv => exact unwrapIn_plain script fuel hv
  | pending hc =>
    obtain ⟨fuel, rfl⟩ := Nat.exists_eq_add_one_of_ne_zero (Nat.ne_of_gt hf)
    exact unwrapIn_pending script fuel hc
  | pass hc _ ih =>
    obtain ⟨fuel, rfl⟩ := Nat.exists_eq_add_one_of_ne_zero (Nat.ne_of_gt (Nat.zero_lt_of_lt hf))
    rw [unwrapIn_pass script fuel hc]
    exact ih (Nat.lt_of_succ_lt_succ hf)

/-- **Unwrapping finds the end of a chain.** -/
theorem unwrap_of_chain (script : String) (h : w.Chain v cs e) :
    unwrap script v w = ofExcept (chainOutcome script e) w := by
  unfold unwrap
  rw [bind_of_done (read_apply _ _)]
  exact unwrapIn_of_chain script h (Nat.lt_succ_of_le h.length_le)

/-- **Only a chain without an end exhausts it.** -/
theorem chain_of_unwrap {script : String} (h : (unwrap script v w).1 ≠ .exhausted) :
    ∃ cs e, w.Chain v cs e := by
  unfold unwrap at h
  rw [bind_of_done (read_apply _ _)] at h
  generalize w.containers.size + 1 = fuel at h
  induction fuel generalizing v with
  | zero =>
    cases v with
    | container c => exact absurd rfl h
    | _ => exact ⟨[], _, .plain nofun⟩
  | succ fuel ih =>
    cases v with
    | container c =>
      cases hc : w.result? c with
      | none => exact ⟨[], none, .pending hc⟩
      | some u =>
        rw [unwrapIn_pass script fuel hc] at h
        obtain ⟨cs, e, hchain⟩ := ih h
        exact ⟨c :: cs, e, .pass hc hchain⟩
    | _ => exact ⟨[], _, .plain nofun⟩

end Run

end ScriptModules
