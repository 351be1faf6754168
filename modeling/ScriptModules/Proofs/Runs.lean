import Mathlib.Order.Defs.Unbundled
import ScriptModules.World.Run

/-!
# What runs lead to

`Run.Leads P x Q E` says what is known of a world in which `x` has run: `Q` of how it ended, and
`E` where it did not end. The rules below follow the ways in which runs are put together, so a
statement about a whole activity is proved by going through its text.

`Run.Within R x` is the form for runs that call nothing: wherever it starts, `x` takes the world
only to worlds that are `R`-related to it, and it fails to end only by asking for the form of
something that holds itself. `Run.Within.leads` carries it over to the first form.
-/

namespace ScriptModules

/-- The value of an outcome, if it has one. -/
def Outcome.value? {ε α : Type} : Outcome ε α → Option α
  | .done a => some a
  | .failed _ => none
  | .exhausted => none

/-- The error of an outcome, if it has one. -/
def Outcome.error? {ε α : Type} : Outcome ε α → Option ε
  | .done _ => none
  | .failed e => some e
  | .exhausted => none

/-- Which faults a piece of code may have on its own, without a function of the host and without code
that runs in another name. -/
class Faults (ε : Type) where
  own : ε → Prop

/-- A text that does not parse is no fault of code that runs. -/
instance : Faults ScriptError where
  own
    | .reference _ | .wrongType _ | .thrown _ => True
    | .badSyntax _ | .host _ => False

instance : Faults HostError where
  own
    | .scriptEvaluation .. => False
    | _ => True

theorem Outcome.eq_done {ε α : Type} {o : Outcome ε α} {a : α} (h : o.value? = some a) :
    o = .done a := by
  cases o with
  | done b => exact congrArg _ (Option.some.inj h)
  | failed e => cases h
  | exhausted => cases h

theorem Outcome.eq_failed {ε α : Type} {o : Outcome ε α} {e : ε} (h : o.error? = some e) :
    o = .failed e := by
  cases o with
  | failed e' => exact congrArg _ (Option.some.inj h)
  | done a => cases h
  | exhausted => cases h

namespace Run

variable {ε ε' α β : Type}

/-- **What a run leads to.** From a world with `P` the run ends in a world with `Q`, which may
mention its value or error; where it does not end, `E` holds of the world that it reached. -/
def Leads (P : World → Prop) (x : Run ε α) (Q : Except ε α → World → Prop) (E : World → Prop) :
    Prop :=
  ∀ w, P w → match x w with
    | (.done a, w') => Q (.ok a) w'
    | (.failed e, w') => Q (.error e) w'
    | (.exhausted, w') => E w'

/-- A run keeps what holds before it, whether it succeeds or fails. -/
abbrev Keeps (P E : World → Prop) (x : Run ε α) : Prop := Leads P x (fun _ => P) E

namespace Leads

variable {P P' E E' : World → Prop} {x : Run ε α} {f : α → Run ε β}
  {Q Q' : Except ε α → World → Prop} {S : Except ε β → World → Prop}

theorem of_eq (h : Leads P x Q E) {w w' : World} {r : Except ε α} (hw : P w)
    (hx : x w = Run.ofExcept r w') : Q r w' := by
  have := h w hw
  rw [hx] at this
  cases r with
  | ok a => exact this
  | error e => exact this

theorem of_exhausted (h : Leads P x Q E) {w w' : World} (hw : P w)
    (hx : x w = (.exhausted, w')) : E w' := by
  have := h w hw
  rwa [hx] at this

/-- What is known of all ends is known of the world that was reached. -/
theorem of_all {Q : World → Prop} (h : Leads P x (fun _ => Q) Q) {w : World} (hw : P w) :
    Q (x w).2 := by
  have := h w hw
  rcases hx : x w with ⟨a | e | _, w'⟩ <;> rw [hx] at this <;> exact this

/-- What is known of the world that is reached, however the run ends. -/
theorem of_reached {Q : World → Prop} (h : ∀ w, P w → Q (x w).2) :
    Leads P x (fun _ => Q) Q := by
  intro w hw
  have := h w hw
  rcases hx : x w with ⟨a | e | _, w'⟩ <;> rw [hx] at this <;> exact this

/-- Less may be asked of the end, and more of the beginning. -/
theorem consequence (h : Leads P x Q E) (hP : ∀ w, P' w → P w)
    (hQ : ∀ r w, Q r w → Q' r w) (hE : ∀ w, E w → E' w) : Leads P' x Q' E' := by
  intro w hw
  have := h w (hP w hw)
  rcases hx : x w with ⟨a | e | _, w'⟩
  · rw [hx] at this
    exact hQ _ _ this
  · rw [hx] at this
    exact hQ _ _ this
  · rw [hx] at this
    exact hE _ this

theorem weaken (h : Leads P x Q E) (hQ : ∀ r w, Q r w → Q' r w) : Leads P x Q' E :=
  h.consequence (fun _ => id) hQ fun _ => id

theorem strengthen (h : Leads P x Q E) (hP : ∀ w, P' w → P w) : Leads P' x Q E :=
  h.consequence hP (fun _ _ => id) fun _ => id

/-- A fact about the beginning that does not mention the world can be taken as known. -/
theorem of_fact {p : Prop} (h : p → Leads P x Q E) : Leads (fun w => p ∧ P w) x Q E :=
  fun w hw => h hw.1 w hw.2

/-- The thing that is known to exist at the beginning can be taken as given. -/
theorem of_exists {γ : Type} {R : γ → World → Prop} (h : ∀ c, Leads (R c) x Q E) :
    Leads (fun w => ∃ c, R c w) x Q E :=
  fun w ⟨c, hw⟩ => h c w hw

/-- A fact that follows from what is known of the beginning. -/
theorem known {p : Prop} (hp : ∀ w, P w → p) (h : p → Leads P x Q E) : Leads P x Q E :=
  fun w hw => h (hp w hw) w hw

theorem pure {a : α} (h : ∀ w, P w → Q (.ok a) w) : Leads P (pure a : Run ε α) Q E :=
  fun w hw => h w hw

theorem fail {e : ε} (h : ∀ w, P w → Q (.error e) w) : Leads P (Run.fail e : Run ε α) Q E :=
  fun w hw => h w hw

theorem exhausted (h : ∀ w, P w → E w) : Leads P (Run.exhausted : Run ε α) Q E :=
  fun w hw => h w hw

theorem read {g : World → α} (h : ∀ w, P w → Q (.ok (g w)) w) :
    Leads P (Run.read g : Run ε α) Q E :=
  fun w hw => h w hw

theorem change {g : World → World} {Q : Except ε Unit → World → Prop}
    (h : ∀ w, P w → Q (.ok ()) (g w)) : Leads P (Run.change g : Run ε Unit) Q E :=
  fun w hw => h w hw

theorem mark {m : Moment} {Q : Except ε Unit → World → Prop}
    (h : ∀ w, P w → Q (.ok ()) (w.mark m)) : Leads P (Run.mark m : Run ε Unit) Q E :=
  fun w hw => h w hw

theorem changeGet {g : World → α × World} (h : ∀ w, P w → Q (.ok (g w).1) (g w).2) :
    Leads P (Run.changeGet g : Run ε α) Q E :=
  fun w hw => h w hw

theorem ofExcept {r : Except ε α} (h : ∀ w, P w → Q r w) :
    Leads P (Run.ofExcept r : Run ε α) Q E := by
  cases r with
  | ok a => exact fun w hw => h w hw
  | error e => exact fun w hw => h w hw

/-- **A run followed by another** leads to what the second leads to from where the first ends. -/
theorem bind (hx : Leads P x Q E) (hf : ∀ a, Leads (Q (.ok a)) (f a) S E)
    (he : ∀ e w, Q (.error e) w → S (.error e) w) : Leads P (x >>= f) S E := by
  intro w hw
  have hx := hx w hw
  rw [bind_apply]
  -- only a run that has a value is followed by the other
  rcases hr : x w with ⟨a | e | _, w'⟩
  · rw [hr] at hx
    exact hf a w' hx
  · rw [hr] at hx
    exact he e w' hx
  · rw [hr] at hx
    exact hx

/-- What is read from the world before a run is known of the world in which the run begins. -/
theorem bind_read {γ : Type} {g : World → γ} {f : γ → Run ε α}
    (hf : ∀ c, Leads (fun w => P w ∧ g w = c) (f c) Q E) :
    Leads P (Run.read g >>= f) Q E :=
  fun w hw => hf (g w) w ⟨hw, rfl⟩

/-- A change of the world, and what comes after it. -/
theorem bind_change {g : World → World} {f : Unit → Run ε α} {R : World → Prop}
    (hg : ∀ w, P w → R (g w)) (hf : Leads R (f ()) Q E) : Leads P (Run.change g >>= f) Q E :=
  fun w hw => hf (g w) (hg w hw)

/-- Something is remembered, and what comes after it. -/
theorem bind_mark {m : Moment} {f : Unit → Run ε α} {R : World → Prop}
    (hm : ∀ w, P w → R (w.mark m)) (hf : Leads R (f ()) Q E) : Leads P (Run.mark m >>= f) Q E :=
  bind_change hm hf

/-- A change that yields something, and what comes after it. -/
theorem bind_changeGet {γ : Type} {g : World → γ × World} {f : γ → Run ε α}
    {R : γ → World → Prop} (hg : ∀ w, P w → R (g w).1 (g w).2) (hf : ∀ c, Leads (R c) (f c) Q E) :
    Leads P (Run.changeGet g >>= f) Q E :=
  fun w hw => hf (g w).1 (g w).2 (hg w hw)

theorem attempt {S : Except ε' (Except ε α) → World → Prop} (hx : Leads P x Q E)
    (hs : ∀ r w, Q r w → S (.ok r) w) : Leads P (Run.attempt x : Run ε' _) S E := by
  intro w hw
  have hx := hx w hw
  simp only [Run.attempt]
  rcases hr : x w with ⟨a | e | _, w'⟩
  · rw [hr] at hx
    exact hs _ _ hx
  · rw [hr] at hx
    exact hs _ _ hx
  · rw [hr] at hx
    exact hx

/-- Run `x` to its end, and go on with its value or error. -/
theorem bind_attempt {γ : Type} {f : Except ε α → Run ε' γ} {S : Except ε' γ → World → Prop}
    (hx : Leads P x Q E) (hf : ∀ r, Leads (Q r) (f r) S E) :
    Leads P (Run.attempt x >>= f) S E := by
  intro w hw
  have hx := hx w hw
  rw [bind_apply]
  -- value and error are both handed on; only a run without an end is not
  rcases hr : x w with ⟨a | e | _, w'⟩
  · rw [hr] at hx
    rw [attempt_of_eq (r := .ok a) hr]
    exact hf (.ok a) w' hx
  · rw [hr] at hx
    rw [attempt_of_eq (r := .error e) hr]
    exact hf (.error e) w' hx
  · rw [hr] at hx
    rw [attempt_exhausted hr]
    exact hx

theorem mapError {g : ε → ε'} {S : Except ε' α → World → Prop} (hx : Leads P x Q E)
    (ho : ∀ a w, Q (.ok a) w → S (.ok a) w) (he : ∀ e w, Q (.error e) w → S (.error (g e)) w) :
    Leads P (Run.mapError g x) S E := by
  intro w hw
  have hx := hx w hw
  simp only [Run.mapError]
  rcases hr : x w with ⟨a | e | _, w'⟩
  · rw [hr] at hx
    exact ho _ _ hx
  · rw [hr] at hx
    exact he _ _ hx
  · rw [hr] at hx
    exact hx

theorem andAlways {g : World → World} {S : Except ε α → World → Prop} (hx : Leads P x Q E)
    (hs : ∀ r w, Q r w → S r (g w)) : Leads P (Run.andAlways x g) S E := by
  intro w hw
  have hx := hx w hw
  simp only [Run.andAlways]
  rcases hr : x w with ⟨a | e | _, w'⟩
  · rw [hr] at hx
    exact hs _ _ hx
  · rw [hr] at hx
    exact hs _ _ hx
  · rw [hr] at hx
    exact hx

theorem onFailure {g : ε → World → World} {S : Except ε α → World → Prop} (hx : Leads P x Q E)
    (ho : ∀ a w, Q (.ok a) w → S (.ok a) w) (he : ∀ e w, Q (.error e) w → S (.error e) (g e w)) :
    Leads P (Run.onFailure g x) S E := by
  intro w hw
  have hx := hx w hw
  simp only [Run.onFailure]
  rcases hr : x w with ⟨a | e | _, w'⟩
  · rw [hr] at hx
    exact ho _ _ hx
  · rw [hr] at hx
    exact he _ _ hx
  · rw [hr] at hx
    exact hx

/-- Code that runs in the name of a script leads to what the code leads to. -/
theorem inName {x : Script α} {Q : Except ScriptError α → World → Prop} {script : String}
    {S : Except HostError α → World → Prop} (hb : ∀ w, P w → P' (w.mark (.call (.begun script))))
    (hx : Leads P' x Q E)
    (hs : ∀ r w, Q r w → S (r.mapError (HostError.ofScript script))
      (w.mark (.call (.ended script (errorOf r))))) :
    Leads P (Run.inName script x) S E :=
  bind_mark hb (bind_attempt hx fun r => bind_mark (fun w => hs r w) (ofExcept fun _ => id))

end Leads

/-- Code that runs in the name of a script ends as the code does. -/
theorem inName_of_eq {x : Script α} {script : String} {w w' : World} {r : Except ScriptError α}
    (h : x (w.mark (.call (.begun script))) = ofExcept r w') :
    inName script x w = ofExcept (r.mapError (HostError.ofScript script))
      (w'.mark (.call (.ended script (errorOf r)))) := by
  change (attempt x >>= _) (w.mark _) = _
  exact bind_of_done (attempt_of_eq h)

theorem inName_exhausted {x : Script α} {script : String} {w w' : World}
    (h : x (w.mark (.call (.begun script))) = (.exhausted, w')) :
    inName script x w = (.exhausted, w') := by
  change (attempt x >>= _) (w.mark _) = _
  exact bind_of_exhausted (attempt_exhausted h)

/-! ### Runs that keep what holds -/

namespace Keeps

variable {P E : World → Prop} {x : Run ε α}

theorem pure {a : α} : Keeps P E (pure a : Run ε α) := Leads.pure fun _ => id

theorem fail {e : ε} : Keeps P E (Run.fail e : Run ε α) := Leads.fail fun _ => id

theorem read {g : World → α} : Keeps P E (Run.read g : Run ε α) := Leads.read fun _ => id

theorem ofExcept {r : Except ε α} : Keeps P E (Run.ofExcept r) := Leads.ofExcept fun _ => id

theorem bind {f : α → Run ε β} (hx : Keeps P E x) (hf : ∀ a, Keeps P E (f a)) :
    Keeps P E (x >>= f) :=
  Leads.bind hx hf fun _ _ => id

/-- What follows may take its value for one that the run has. -/
theorem bind_value {f : α → Run ε β} (hx : Keeps P E x)
    (hf : ∀ a, (∃ w w', P w ∧ x w = (.done a, w')) → Keeps P E (f a)) : Keeps P E (x >>= f) := by
  intro w hw
  have hx := hx w hw
  rw [bind_apply]
  rcases hr : x w with ⟨a | e | _, w'⟩
  · rw [hr] at hx
    exact hf a ⟨w, w', hw, hr⟩ w' hx
  · rwa [hr] at hx
  · rwa [hr] at hx

theorem attempt (hx : Keeps P E x) : Keeps P E (Run.attempt x : Run ε' _) :=
  Leads.attempt hx fun _ _ => id

theorem mapError {g : ε → ε'} (hx : Keeps P E x) : Keeps P E (Run.mapError g x) :=
  Leads.mapError hx (fun _ _ => id) fun _ _ => id

theorem andAlways {g : World → World} (hx : Keeps P E x) (hg : ∀ w, P w → P (g w)) :
    Keeps P E (Run.andAlways x g) :=
  Leads.andAlways hx fun _ => hg

theorem onFailure {g : ε → World → World} (hx : Keeps P E x) (hg : ∀ e w, P w → P (g e w)) :
    Keeps P E (Run.onFailure g x) :=
  Leads.onFailure hx (fun _ _ => id) fun e w => hg e w

theorem inName {x : Script α} {script : String} (hx : Keeps P E x)
    (hm : ∀ k w, P w → P (w.mark (.call k))) : Keeps P E (Run.inName script x) :=
  Leads.inName (fun w => hm _ w) hx fun _ w => hm _ w

end Keeps

/-- **A run that keeps what holds and does not fail.** -/
abbrev Supplies (P E : World → Prop) (x : Run ε α) : Prop :=
  Leads P x (fun | .ok _ => P | .error _ => fun _ => False) E

namespace Supplies

variable {P E : World → Prop} {x : Run ε α}

theorem pure {a : α} : Supplies P E (pure a : Run ε α) := Leads.pure fun _ => id

theorem read {g : World → α} : Supplies P E (Run.read g : Run ε α) := Leads.read fun _ => id

theorem changeGet {g : World → α × World} (h : ∀ w, P w → P (g w).2) :
    Supplies P E (Run.changeGet g : Run ε α) :=
  Leads.changeGet fun w => h w

theorem bind {f : α → Run ε β} (hx : Supplies P E x) (hf : ∀ a, Supplies P E (f a)) :
    Supplies P E (x >>= f) :=
  Leads.bind hx hf fun _ _ => False.elim

theorem keeps (hx : Supplies P E x) : Keeps P E x :=
  hx.weaken fun r w h => by
    cases r with
    | ok a => exact h
    | error e => exact h.elim

end Supplies

/-! ### Runs that stay within a relation -/

variable [Faults ε]

/-- **A run that calls nothing** and takes the world only where `R` allows. If it fails, the fault is
its own. It may fail to end, but only by asking for the form of something that holds itself, which is
remembered. -/
def Within (R : World → World → Prop) (x : Run ε α) : Prop :=
  ∀ w, match x w with
    | (.done _, w') => R w w'
    | (.failed e, w') => Faults.own e ∧ R w w'
    | (.exhausted, w') => ∃ w₁, R w w₁ ∧ w' = w₁.mark (.call .endless)

namespace Within

variable {R R' : World → World → Prop} {x : Run ε α} {f : α → Run ε β}

/-- A run that stays within `R` keeps whatever `R` keeps. -/
theorem leads {P Q E : World → Prop} (h : Within R x) (hR : ∀ w w', P w → R w w' → Q w')
    (hE : ∀ w, Q w → E (w.mark (.call .endless))) : Leads P x (fun _ => Q) E := by
  intro w hw
  have := h w
  rcases hx : x w with ⟨a | e | _, w'⟩
  · rw [hx] at this
    exact hR w w' hw this
  · rw [hx] at this
    exact hR w w' hw this.2
  · rw [hx] at this
    obtain ⟨w₁, hw₁, rfl⟩ := this
    exact hE w₁ (hR w w₁ hw hw₁)

/-- A run that ends stays within the relation. -/
theorem of_eq (h : Within R x) {w w' : World} {r : Except ε α} (hx : x w = Run.ofExcept r w') :
    R w w' := by
  have hw := h w
  rw [hx] at hw
  cases r with
  | ok a => exact hw
  | error e => exact hw.2

/-- A run that fails has itself to blame. -/
theorem own_of_failed (h : Within R x) {w w' : World} {e : ε} (hx : x w = (.failed e, w')) :
    Faults.own e := by
  have hw := h w
  rw [hx] at hw
  exact hw.1

theorem mono (h : Within R x) (hR : ∀ w w', R w w' → R' w w') : Within R' x := by
  intro w
  have := h w
  rcases hx : x w with ⟨a | e | _, w'⟩
  · rw [hx] at this
    exact hR _ _ this
  · rw [hx] at this
    exact ⟨this.1, hR _ _ this.2⟩
  · rw [hx] at this
    obtain ⟨w₁, hw₁, rfl⟩ := this
    exact ⟨w₁, hR _ _ hw₁, rfl⟩

theorem change {g : World → World} (h : ∀ w, R w (g w)) : Within R (Run.change g : Run ε Unit) :=
  fun w => h w

theorem changeGet {g : World → α × World} (h : ∀ w, R w (g w).2) :
    Within R (Run.changeGet g : Run ε α) :=
  fun w => h w

section

variable [Std.Refl R]

theorem pure {a : α} : Within R (pure a : Run ε α) := fun w => Std.Refl.refl w

theorem fail {e : ε} (he : Faults.own e) : Within R (Run.fail e : Run ε α) :=
  fun w => ⟨he, Std.Refl.refl w⟩

theorem read {g : World → α} : Within R (Run.read g : Run ε α) := fun w => Std.Refl.refl w

theorem ofExcept {r : Except ε α} (hr : ∀ e, r = .error e → Faults.own e) :
    Within R (Run.ofExcept r) := by
  cases r with
  | ok a => exact pure
  | error e => exact fail (hr e rfl)

theorem formOf {g : World → Option α} : Within R (Run.formOf g : Run ε α) := by
  intro w
  simp only [Run.formOf]
  cases g w with
  | some a => exact Std.Refl.refl w
  | none => exact ⟨w, Std.Refl.refl w, rfl⟩

end

theorem bind [IsTrans World R] (hx : Within R x) (hf : ∀ a, Within R (f a)) :
    Within R (x >>= f) := by
  intro w
  have hx := hx w
  rcases hr : x w with ⟨a | e | _, w'⟩
  -- only a run that is done goes on, and then the two relations are composed
  · rw [hr] at hx
    rw [bind_of_done hr]
    have hf := hf a w'
    rcases hs : f a w' with ⟨b | e | _, w''⟩
    · rw [hs] at hf
      exact IsTrans.trans _ _ _ hx hf
    · rw [hs] at hf
      exact ⟨hf.1, IsTrans.trans _ _ _ hx hf.2⟩
    · rw [hs] at hf
      obtain ⟨w₁, hw₁, h⟩ := hf
      exact ⟨w₁, IsTrans.trans _ _ _ hx hw₁, h⟩
  · rw [hr] at hx
    rw [bind_of_failed hr]
    exact hx
  · rw [hr] at hx
    rw [bind_apply, hr]
    exact hx

end Within

end Run

end ScriptModules
