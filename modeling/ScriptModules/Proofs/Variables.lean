import ScriptModules.Proofs.Hoisting
import ScriptModules.Proofs.ScopeChains

/-!
# Which variable a name means

A name is looked up along the chain of scopes, and then among the bindings of the host; an assignment
goes along the same chain, and then to the root. The two mean the same variable. Seen from a scope, the
variable of a name lives in the scope of its nearest declaration, or in the root if there is none
(`World.home`). Storing a variable in the home that a name has from one scope changes what the name
means in exactly the scopes from which it has the same home (`World.Formed.declaration?_store_home`).

So an assignment that succeeds is seen from these scopes, and from no other scope and under no other
name. It fails if the nearest declaration is constant, and then it changes nothing
(`World.Formed.assign_seen`).
-/

namespace ScriptModules

namespace World

variable {w w' : World} {s t r : Ref .scope} {x : Scope} {name : String} {u v : Variable}

/-! ### The nearest declaration -/

/-- What is declared is a variable of the scope in which it is declared. -/
theorem local?_of_declaration? (h : w.declaration? s name = some (r, v)) :
    w.local? r name = some v := by
  obtain ⟨⟨r', y⟩, hmem, hy⟩ := List.exists_of_findSome?_eq_some h
  obtain ⟨v', hv, hpair⟩ := Option.map_eq_some_iff.mp hy
  obtain ⟨rfl, rfl⟩ := Prod.mk.inj hpair
  rw [local?, get?_of_mem_chainFrom hmem]
  exact hv

/-- A name without a variable in the scope means what it means in the parent. -/
theorem Formed.declaration?_of_local?_eq_none (h : w.Formed) (hs : w.scopes.get? s = some x)
    (hnone : w.local? s name = none) :
    w.declaration? s name = x.parent.bind fun p => w.declaration? p name := by
  have hlocal : x.locals.get? name = none := by
    rw [local?, hs] at hnone
    exact hnone
  rw [declaration?, h.scopeChain_eq hs, List.findSome?_cons]
  simp only [hlocal, Option.map_none]
  cases x.parent <;> rfl

/-- What is declared nowhere is no variable of the root. -/
theorem local?_rootOf_eq_none (hnone : w.declaration? s name = none) :
    w.local? (w.rootOf s) name = none := by
  cases hlast : (w.scopeChain s).getLast? with
  | some e =>
    have hmem := List.mem_of_getLast? hlast
    have hroot : w.rootOf s = e.1 := by rw [rootOf, hlast]
    rw [hroot, local?, get?_of_mem_chainFrom hmem]
    exact Option.map_eq_none_iff.1 (List.findSome?_eq_none_iff.1 hnone e hmem)
  | none =>
    -- the chain of a scope that is there begins with it
    have hroot : w.rootOf s = s := by rw [rootOf, hlast]
    rw [hroot, local?]
    cases hs : w.scopes.get? s with
    | none => rfl
    | some x =>
      rw [List.getLast?_eq_none_iff, scopeChain, chainFrom, hs] at hlast
      cases hlast

/-- **Where the variable of a name lives,** seen from a scope: in the scope of its nearest declaration,
or, if it has none, in the root. -/
def home (w : World) (s : Ref .scope) (name : String) : Ref .scope :=
  ((w.declaration? s name).map (·.1)).getD (w.rootOf s)

theorem home_of_declaration? (h : w.declaration? s name = some (r, v)) : w.home s name = r := by
  rw [home, h]
  rfl

theorem home_of_declaration?_eq_none (h : w.declaration? s name = none) :
    w.home s name = w.rootOf s := by
  rw [home, h]
  rfl

/-- A name can live in the scope: there is a variable of the name, or it is a root. -/
def IsHome (w : World) (s : Ref .scope) (name : String) : Prop :=
  ∃ x, w.scopes.get? s = some x ∧ (x.parent = none ∨ ∃ v, w.local? s name = some v)

/-- A name lives in a scope that is a home for it. -/
theorem Formed.isHome_home (h : w.Formed) (hs : w.scopes.get? s = some x) (name : String) :
    w.IsHome (w.home s name) name := by
  cases hd : w.declaration? s name with
  | some d =>
    obtain ⟨r, v⟩ := d
    have hlocal := local?_of_declaration? hd
    obtain ⟨y, hy, -⟩ := Option.bind_eq_some_iff.1 hlocal
    rw [home_of_declaration? hd]
    exact ⟨y, hy, .inr ⟨v, hlocal⟩⟩
  | none =>
    obtain ⟨y, -, hy, hparent, -⟩ := h.root hs
    rw [home_of_declaration?_eq_none hd]
    exact ⟨y, hy, .inl hparent⟩

/-- In a scope that is a home for a name, the name lives there. -/
theorem Formed.home_eq_self (h : w.Formed) (hs : w.IsHome s name) : w.home s name = s := by
  obtain ⟨x, hx, hhome⟩ := hs
  cases hd : w.local? s name with
  | some v => exact home_of_declaration? (declaration?_of_local? hd)
  | none =>
    have hp : x.parent = none := hhome.resolve_right fun ⟨v, hv⟩ => nomatch hd.symm.trans hv
    have hnone := h.declaration?_of_local?_eq_none hx hd
    rw [hp] at hnone
    rw [home_of_declaration?_eq_none hnone, h.rootOf_of_parent_eq_none hx hp]

/-- A name that is no variable of an inner scope has the home that it has from the parent. -/
theorem Formed.home_eq_of_parent (h : w.Formed) (hs : w.scopes.get? s = some x) {p : Ref .scope}
    (hp : x.parent = some p) (hnone : w.local? s name = none) : w.home s name = w.home p name := by
  rw [home, home, h.declaration?_of_local?_eq_none hs hnone, hp, Option.bind_some, h.rootOf_eq hs hp]

/-- **Two scopes see the same variable under a name:** they have the same nearest declaration of it, or
they have none and share the root. -/
def SameVariable (w : World) (name : String) (s t : Ref .scope) : Prop :=
  (∃ d, w.declaration? s name = some d ∧ w.declaration? t name = some d) ∨
  (w.declaration? s name = none ∧ w.declaration? t name = none ∧ w.rootOf s = w.rootOf t)

/-- They do so if the name has the same home. -/
theorem sameVariable_iff : w.SameVariable name s t ↔ w.home t name = w.home s name := by
  constructor
  · rintro (⟨d, hs, ht⟩ | ⟨hs, ht, hroot⟩)
    · rw [home, home, hs, ht]
      rfl
    · rw [home_of_declaration?_eq_none hs, home_of_declaration?_eq_none ht, hroot]
  · intro hhome
    cases hds : w.declaration? s name with
    | some d =>
      obtain ⟨r, v⟩ := d
      have hlocal := local?_of_declaration? hds
      rw [home_of_declaration? hds] at hhome
      cases hdt : w.declaration? t name with
      | some d' =>
        obtain ⟨r', v'⟩ := d'
        obtain rfl : r' = r := (home_of_declaration? hdt).symm.trans hhome
        obtain rfl := Option.some.inj ((local?_of_declaration? hdt).symm.trans hlocal)
        exact .inl ⟨_, hds, hdt⟩
      | none =>
        -- the scope of the declaration would be the root, where `t` would see it
        rw [home_of_declaration?_eq_none hdt] at hhome
        have hnone := local?_rootOf_eq_none hdt
        rw [hhome, hlocal] at hnone
        cases hnone
    | none =>
      rw [home_of_declaration?_eq_none hds] at hhome
      cases hdt : w.declaration? t name with
      | some d =>
        obtain ⟨r, v⟩ := d
        rw [home_of_declaration? hdt] at hhome
        have hnone := local?_rootOf_eq_none hds
        rw [← hhome, local?_of_declaration? hdt] at hnone
        cases hnone
      | none =>
        rw [home_of_declaration?_eq_none hdt] at hhome
        exact .inr ⟨hds, hdt, hhome.symm⟩

/-! ### Storing a variable -/

/-- What a name means follows its own scope and then the parent, also after a variable was stored. -/
theorem Formed.declaration?_setVariable_of_parent (h : w.Formed) (ht : w.scopes.get? t = some x)
    {other : String} (hkept : (w.setVariable r name u).local? t other = w.local? t other)
    (hparent : ∀ p, x.parent = some p → w.local? t other = none →
      (w.setVariable r name u).declaration? p other = w.declaration? p other) :
    (w.setVariable r name u).declaration? t other = w.declaration? t other := by
  have hplaces := w.setVariable_samePlaces r name u
  obtain ⟨y, hy, hsame, -⟩ := hplaces.symm_get? ht
  cases hd : w.local? t other with
  | some v => rw [declaration?_of_local? hd, declaration?_of_local? (hkept.trans hd)]
  | none =>
    rw [h.declaration?_of_local?_eq_none ht hd,
      (h.of_samePlaces hplaces).declaration?_of_local?_eq_none hy (hkept.trans hd), hsame]
    cases hp : x.parent with
    | none => rfl
    | some p => exact hparent p hp hd

/-- A variable that is stored in a home of its name is what the name means in the scopes from which the
name lives there, and in no others, if this is so of the parent: the chain has come to that home, to
another one, or to a scope that it passes. -/
theorem Formed.declaration?_store_of_parent (h : w.Formed) (hhome : w.IsHome r name)
    (ht : w.scopes.get? t = some x)
    (hparent : ∀ p, x.parent = some p → (w.setVariable r name u).declaration? p name =
      if w.home p name = r then some (r, u) else w.declaration? p name) :
    (w.setVariable r name u).declaration? t name =
      if w.home t name = r then some (r, u) else w.declaration? t name := by
  by_cases heq : r = t
  · subst heq
    rw [if_pos (h.home_eq_self hhome)]
    exact declaration?_of_local? (local?_setVariable_self (lt_size_of_get? ht))
  have hkept : (w.setVariable r name u).local? t name = w.local? t name :=
    local?_setVariable_of_ne fun hsame => absurd hsame heq
  by_cases hown : w.IsHome t name
  -- the chain ends at another home, so that nothing has changed
  · rw [h.home_eq_self hown, if_neg (Ne.symm heq)]
    refine h.declaration?_setVariable_of_parent ht hkept fun p hp hnone => ?_
    obtain ⟨y, hy, hroot | ⟨v, hv⟩⟩ := hown
    · obtain rfl := Option.some.inj (hy.symm.trans ht)
      cases hp.symm.trans hroot
    · cases hnone.symm.trans hv
  · have hnone : w.local? t name = none := Option.eq_none_iff_forall_ne_some.2 fun v hv =>
      hown ⟨x, ht, .inr ⟨v, hv⟩⟩
    obtain ⟨p, hp⟩ := Option.ne_none_iff_exists'.1 fun hroot => hown ⟨x, ht, .inl hroot⟩
    have hplaces := w.setVariable_samePlaces r name u
    obtain ⟨y, hy, hsame, -⟩ := hplaces.symm_get? ht
    rw [h.home_eq_of_parent ht hp hnone, h.declaration?_of_local?_eq_none ht hnone,
      (h.of_samePlaces hplaces).declaration?_of_local?_eq_none hy (hkept.trans hnone), hsame, hp,
      Option.bind_some, Option.bind_some]
    exact hparent p hp

/-- **A variable that is stored in the home of its name is what the name means** in all scopes from
which the name has this home. In the others it means what it meant. -/
theorem Formed.declaration?_store_home (h : w.Formed) (hs : s.row < w.scopes.size)
    (ht : t.row < w.scopes.size) (name : String) (u : Variable) :
    (w.setVariable (w.home s name) name u).declaration? t name =
      if w.home t name = w.home s name then some (w.home s name, u) else w.declaration? t name := by
  obtain ⟨x, hx⟩ := Table.exists_of_lt_size hs
  obtain ⟨y, hy⟩ := Table.exists_of_lt_size ht
  have hhome := h.isHome_home hx name
  generalize w.home s name = r at hhome ⊢
  refine h.induction (motive := fun t _ => (w.setVariable r name u).declaration? t name =
    if w.home t name = r then some (r, u) else w.declaration? t name)
    (fun t y hy hp => h.declaration?_store_of_parent hhome hy fun p hp' => nomatch hp.symm.trans hp')
    (fun t y p _ hy hp _ _ ih => h.declaration?_store_of_parent hhome hy fun p' hp' => ?_) hy
  obtain rfl := Option.some.inj (hp.symm.trans hp')
  exact ih

/-- Storing a variable changes the meaning of no other name. -/
theorem Formed.declaration?_setVariable_of_ne (h : w.Formed) {other : String} (hne : name ≠ other)
    (ht : t.row < w.scopes.size) :
    (w.setVariable r name u).declaration? t other = w.declaration? t other := by
  obtain ⟨y, hy⟩ := Table.exists_of_lt_size ht
  have hkept : ∀ t, (w.setVariable r name u).local? t other = w.local? t other :=
    fun t => local?_setVariable_of_ne fun _ => hne
  refine h.induction (motive := fun t _ =>
    (w.setVariable r name u).declaration? t other = w.declaration? t other)
    (fun t y hy hp => h.declaration?_setVariable_of_parent hy (hkept t) fun p hp' _ =>
      nomatch hp.symm.trans hp')
    (fun t y p _ hy hp _ _ ih => h.declaration?_setVariable_of_parent hy (hkept t)
      fun p' hp' _ => ?_) hy
  obtain rfl := Option.some.inj (hp.symm.trans hp')
  exact ih

/-- Storing a variable leaves the bindings of the host alone. -/
theorem Formed.globalsOf_setVariable (h : w.Formed) (ht : t.row < w.scopes.size) :
    (w.setVariable r name u).globalsOf t = w.globalsOf t := by
  obtain ⟨y, hy⟩ := Table.exists_of_lt_size ht
  have hplaces := w.setVariable_samePlaces r name u
  obtain ⟨y', hy', -⟩ := hplaces.symm_get? hy
  obtain ⟨z, hlast, hz, -⟩ := h.root hy
  obtain ⟨z', hlast', hz', -⟩ := (h.of_samePlaces hplaces).root hy'
  rw [h.rootOf_of_samePlaces hplaces hy] at hz'
  have hglobals : z'.globals = z.globals := by
    rw [setVariable, Table.get?_update, hz] at hz'
    split at hz' <;> (obtain rfl := Option.some.inj hz'; rfl)
  rw [globalsOf, globalsOf, hlast, hlast']
  exact hglobals

end World

/-! ### Looking up and assigning -/

open World

variable {w : World} {s t : Ref .scope} {name : String}

/-- **A name that means the same in other scopes is looked up with the same result,** be it a value or
an error, and does the same to everything but the scopes. -/
theorem Run.lookup_withScopes {scopes : Table .scope Scope}
    (hd : (w.withScopes scopes).declaration? t name = w.declaration? t name)
    (hg : (w.withScopes scopes).globalsOf t = w.globalsOf t) :
    Run.lookup t name (w.withScopes scopes) =
      ((Run.lookup t name w).1, (Run.lookup t name w).2.withScopes scopes) := by
  have htry : (Run.tryLookup t name : Script _) (w.withScopes scopes) =
      (((Run.tryLookup t name : Script _) w).1,
        ((Run.tryLookup t name : Script _) w).2.withScopes scopes) := by
    unfold Run.tryLookup
    rw [hd, hg]
    cases w.declaration? t name with
    | some d => rfl
    | none =>
      cases w.globalsOf t with
      | none => rfl
      | some b => exact (Run.Inert.get? (T := .all) b name).blind w scopes
  unfold Run.lookup
  rw [Run.bind_apply, Run.bind_apply, htry]
  rcases (Run.tryLookup t name : Script _) w with ⟨(_ | v) | e | _, w'⟩ <;> rfl

/-- An assignment stores a variable in the home of the name, unless a constant is there. -/
theorem Run.assign_eq (s : Ref .scope) (name : String) (v : Value) (w : World) :
    (Run.assign s name v w = (.done (), w.setVariable (w.home s name) name ⟨v, false⟩) ∧
      ∀ r u, w.declaration? s name = some (r, u) → u.constant = false) ∨
    ∃ r u, w.declaration? s name = some (r, u) ∧ u.constant = true ∧
      Run.assign s name v w = (.failed (.wrongType "Assignment to constant variable"), w) := by
  unfold Run.assign
  cases hd : w.declaration? s name with
  | some d =>
    obtain ⟨r, u⟩ := d
    dsimp only
    rw [home_of_declaration? hd]
    cases hconstant : u.constant with
    | true => exact .inr ⟨r, u, rfl, hconstant, rfl⟩
    | false =>
      refine .inl ⟨rfl, fun r' u' heq => ?_⟩
      obtain ⟨rfl, rfl⟩ := Prod.mk.inj (Option.some.inj heq)
      exact hconstant
  | none =>
    rw [home_of_declaration?_eq_none hd]
    exact .inl ⟨rfl, nofun⟩

/-- **An assignment is seen where the name means the same variable.** It stores the value, and then the
name is looked up with this value from every scope that had the same nearest declaration, or had none
and shares the root. From the other scopes, and under other names, what is looked up is what it was,
with whatever else looking it up does. A name without a declaration gets a variable in the root and
nowhere else, in front of the bindings of the host, which stay what they were. Or else the nearest
declaration is constant; then the assignment fails, and nothing has changed. -/
theorem World.Formed.assign_seen (h : w.Formed) (hs : s.row < w.scopes.size) (name : String)
    (v : Value) :
    (∃ scopes, Run.assign s name v w = (.done (), w.withScopes scopes) ∧
      (∀ r u, w.declaration? s name = some (r, u) → u.constant = false) ∧
      (w.withScopes scopes).Formed ∧
      (∀ t, t.row < w.scopes.size →
        (w.SameVariable name s t →
          Run.lookup t name (w.withScopes scopes) = (.done v, w.withScopes scopes)) ∧
        (¬ w.SameVariable name s t → Run.lookup t name (w.withScopes scopes) =
          ((Run.lookup t name w).1, (Run.lookup t name w).2.withScopes scopes)) ∧
        (∀ other, other ≠ name → Run.lookup t other (w.withScopes scopes) =
          ((Run.lookup t other w).1, (Run.lookup t other w).2.withScopes scopes)) ∧
        (w.withScopes scopes).globalsOf t = w.globalsOf t) ∧
      (w.declaration? s name = none → ∀ r other, (w.withScopes scopes).local? r other =
        if r = w.rootOf s ∧ other = name then some ⟨v, false⟩ else w.local? r other)) ∨
    ∃ r u, w.declaration? s name = some (r, u) ∧ u.constant = true ∧
      Run.assign s name v w = (.failed (.wrongType "Assignment to constant variable"), w) := by
  rcases Run.assign_eq s name v w with ⟨hrun, hvariable⟩ | hconstant
  · -- the world behind the assignment differs in its scopes only
    let w' := w.setVariable (w.home s name) name ⟨v, false⟩
    have hglobals : ∀ t, t.row < w.scopes.size → w'.globalsOf t = w.globalsOf t :=
      fun t => h.globalsOf_setVariable
    refine .inl ⟨w'.scopes, hrun, hvariable,
      h.of_samePlaces (w.setVariable_samePlaces _ _ _), fun t ht => ?_, fun hnone r other => ?_⟩
    · have hmeans := h.declaration?_store_home hs ht name ⟨v, false⟩
      refine ⟨fun hsame => ?_, fun hother => ?_, fun other hne => ?_, hglobals t ht⟩
      · rw [if_pos (sameVariable_iff.1 hsame)] at hmeans
        exact lookup_of_declaration? hmeans
      · rw [if_neg fun heq => hother (sameVariable_iff.2 heq)] at hmeans
        exact Run.lookup_withScopes hmeans (hglobals t ht)
      · exact Run.lookup_withScopes (h.declaration?_setVariable_of_ne (Ne.symm hne) ht)
          (hglobals t ht)
    · obtain ⟨x, hx⟩ := Table.exists_of_lt_size hs
      obtain ⟨y, hy, -⟩ := h.isHome_home hx name
      have hroot := home_of_declaration?_eq_none hnone
      change w'.local? r other = _
      split
      · next heq =>
        obtain ⟨rfl, rfl⟩ := heq
        rw [← hroot]
        exact local?_setVariable_self (lt_size_of_get? hy)
      · next hne =>
        exact local?_setVariable_of_ne fun heq hname => hne ⟨heq.symm.trans hroot, hname.symm⟩
  · exact .inr hconstant

/-- A root scope over a binding of the host's, a scope in it with a constant, and one in that. -/
def World.nested : World :=
  let root := Scope.root (({} : Bindings).put "x" .null) ⟨0⟩
  let inner (p : Nat) (locals : OrderedMap Variable) : Scope :=
    { locals := locals, parent := some ⟨p⟩, this := none, globals := none, heap := ⟨0⟩ }
  ((World.empty.addHeap.addScope root).addScope
    (inner 0 (.ofList [("c", ⟨.null, true⟩)]))).addScope (inner 1 .empty)

theorem World.nested_formed : World.nested.Formed := by
  have hroot := empty_formed.addHeap.addScope
    (s := .root (({} : Bindings).put "x" .null) ⟨0⟩) nofun
  refine (hroot.addScope (fun p hp => ?_)).addScope (fun p hp => ?_)
  all_goals
    obtain rfl := Option.some.inj hp
    exact ⟨_, rfl, rfl⟩

/-- There the name of the host's can be assigned to from within, and is then seen with the value from
the scope around, while the constant stays what it is. -/
theorem World.nested_assign_seen : (2 < World.nested.scopes.size ∧ World.nested.Formed) ∧
    (∃ scopes, Run.assign ⟨2⟩ "x" (.boolean true) World.nested =
        (.done (), World.nested.withScopes scopes) ∧
      Run.lookup ⟨1⟩ "x" (World.nested.withScopes scopes) =
        (.done (.boolean true), World.nested.withScopes scopes)) ∧
    Run.assign ⟨2⟩ "c" (.boolean true) World.nested =
      (.failed (.wrongType "Assignment to constant variable"), World.nested) := by
  refine ⟨⟨by decide, nested_formed⟩, ?_, ?_⟩
  · rcases nested_formed.assign_seen (s := ⟨2⟩) (by decide) "x" (.boolean true) with
      ⟨scopes, hrun, -, -, hseen, -⟩ | ⟨r, u, hd, -⟩
    · exact ⟨scopes, hrun, (hseen ⟨1⟩ (by decide)).1 (.inr ⟨rfl, rfl, rfl⟩)⟩
    · cases hd
  · rcases nested_formed.assign_seen (s := ⟨2⟩) (by decide) "c" (.boolean true) with
      ⟨-, -, hvariable, -⟩ | ⟨-, -, -, -, hrun⟩
    · cases hvariable ⟨1⟩ ⟨.null, true⟩ rfl
    · exact hrun

end ScriptModules
