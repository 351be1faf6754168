import ScriptModules.Module.Names
import ScriptModules.Proofs.ConductRuns
import ScriptModules.Proofs.ScopeChains

/-!
# Names out of reach

A script reaches what the host bound by the names that stand in it, and these are identifiers of the
grammar. So what the host bound under other names, such as the reserved ones, is out of its reach:
an evaluation does not depend on it, and leaves it as it is (`Engine.evaluate_out_of_reach`).

The comparison is of one run with itself in a world where a root scope lies on other bindings
(`World.rebind`). A run that has the property does the same there, and the two worlds stay apart in
that scope only (`Run.Apart`). It is a property of every operation, as long as the names that are
looked up are identifiers.
-/

namespace ScriptModules

open Grammar (script)

/-! ### Tables -/

namespace Table

variable {k : Kind} {α : Type} {t t' : Table k α} {i j : Ref k}

/-- Tables in which the same things are found are equal. -/
theorem eq_of_get? (h : ∀ i, t.get? i = t'.get? i) : t = t' := by
  obtain ⟨rows⟩ := t
  obtain ⟨rows'⟩ := t'
  exact congrArg mk (Array.ext_getElem? fun n => h ⟨n⟩)

theorem update_update {f g : α → α} (h : ∀ a, f (g a) = g (f a)) :
    (t.update i f).update j g = (t.update j g).update i f := by
  refine eq_of_get? fun r => ?_
  simp only [get?_update]
  by_cases hi : i = r
  · by_cases hj : j = r
    · simp only [if_pos hi, if_pos hj, Option.map_map]
      exact congrArg (fun u => Option.map u (t.get? r)) (funext fun a => (h a).symm)
    · simp only [if_pos hi, if_neg hj]
  · simp only [if_neg hi]

theorem update_add (f : α → α) (a : α) (hi : i.row < t.size) :
    (t.update i f).add a = (t.add a).update i f := by
  refine eq_of_get? fun r => ?_
  have hfresh : (t.update i f).fresh = t.fresh := congrArg Ref.mk (size_update t i f)
  simp only [get?_add, get?_update, hfresh]
  by_cases hr : r = t.fresh
  · have hne : i ≠ r := fun h => by
      rw [h, hr] at hi
      exact Nat.lt_irrefl _ hi
    simp only [if_pos hr, if_neg hne]
  · simp only [if_neg hr]

end Table

/-! ### Another root -/

/-- **Bindings that differ only in entries whose names are no identifiers.** -/
structure Bindings.SameInReach (b b' : Bindings) : Prop where
  entries : ∀ x : String, script.Takes .identifier x.toList → b'.entries.get? x = b.entries.get? x
  heap : b'.heap = b.heap

/-- The scope on other bindings, unless it was emptied. -/
def Scope.rebind (b : Bindings) (x : Scope) : Scope :=
  { x with globals := x.globals.map fun _ => b }

/-- The world in which a scope lies on other bindings. -/
def World.rebind (w : World) (s : Ref .scope) (b : Bindings) : World :=
  w.withScopes (w.scopes.update s (Scope.rebind b))

/-- **The scope still lies on the bindings,** unless it was emptied, and its variables do not hide
any that is bound under a name which is no identifier. -/
def World.LiesOn (w : World) (s : Ref .scope) (b : Bindings) : Prop :=
  ∃ x, w.scopes.get? s = some x ∧ (x.globals = some b ∨ x.globals = none) ∧
    ∀ y v, x.locals.get? y = some v → script.Takes .identifier y.toList

/-- The functions that were written in scripts mention identifiers only. -/
def World.TidyFunctions (w : World) : Prop :=
  ∀ f c, w.functions.get? f = some (.closure c) → c.Tidy

/-- Only identifiers are names. -/
def Terms.identifiers : Terms where
  sites _ := True
  modules _ _ _ _ := True
  environments _ _ := True
  names x := script.Takes .identifier x.toList

namespace Terms.identifiers

theorem not_free : ¬ Terms.identifiers.Free := fun h =>
  absurd (h ReservedName.scriptFilename) (by
    change ¬ script.Takes .identifier _
    decide +kernel)

theorem holds_iff {w : World} : Terms.identifiers.Holds w ↔ w.TidyFunctions := by
  refine ⟨fun h f c hc => (h.functions f _ hc).resolve_left not_free, fun h => ?_⟩
  refine ⟨fun f x hx => ?_, fun c t _ => ?_, fun c t _ => ?_, fun _ _ _ => trivial⟩
  · cases x with
    | closure c => exact .inr (h f c hx)
    | _ => trivial
  · cases t <;> trivial
  · cases t <;> trivial

theorem coherent : Terms.identifiers.Coherent where
  identifier := Grammar.takes_identifier
  load _ _ _ := trivial
  install _ _ := trivial

end Terms.identifiers

section

variable {b b' : Bindings} {s : Ref .scope} {w : World}

namespace World

theorem get?_rebind (r : Ref .scope) : (w.rebind s b').scopes.get? r =
    if s = r then (w.scopes.get? r).map (Scope.rebind b') else w.scopes.get? r :=
  Table.get?_update w.scopes s r _

theorem heapOf_rebind (r : Ref .scope) : (w.rebind s b').heapOf r = w.heapOf r := by
  rw [heapOf, heapOf, get?_rebind]
  by_cases hr : s = r
  · rw [if_pos hr]
    cases w.scopes.get? r <;> rfl
  · rw [if_neg hr]

/-- An entry of a chain in the other world. -/
def reboundEntry (s : Ref .scope) (b' : Bindings) (e : Ref .scope × Scope) : Ref .scope × Scope :=
  (e.1, if s = e.1 then e.2.rebind b' else e.2)

theorem locals_reboundEntry (e : Ref .scope × Scope) :
    (reboundEntry s b' e).2.locals = e.2.locals := by
  unfold reboundEntry
  split <;> rfl

theorem this_reboundEntry (e : Ref .scope × Scope) : (reboundEntry s b' e).2.this = e.2.this := by
  unfold reboundEntry
  split <;> rfl

/-- **A chain is the same but for what the root lies on.** -/
theorem chainFrom_rebind (n : Nat) (r : Ref .scope) :
    (w.rebind s b').chainFrom n r = (w.chainFrom n r).map (reboundEntry s b') := by
  induction n generalizing r with
  | zero => rfl
  | succ n ih =>
    rw [chainFrom, chainFrom, get?_rebind]
    cases hr : w.scopes.get? r with
    | none =>
      rw [Option.map_none, ite_self]
      rfl
    | some x =>
      have hx : (if s = r then (some x).map (Scope.rebind b') else some x) =
          some (if s = r then x.rebind b' else x) := by
        split <;> rfl
      have hparent : (if s = r then x.rebind b' else x).parent = x.parent := by
        split <;> rfl
      rw [hx]
      simp only [hparent, List.map_cons]
      congr 1
      cases x.parent with
      | none => rfl
      | some p => exact ih p

theorem scopeChain_rebind (r : Ref .scope) :
    (w.rebind s b').scopeChain r = (w.scopeChain r).map (reboundEntry s b') :=
  chainFrom_rebind _ r

/-- What the chain shows of a scope but its bindings is the same. -/
theorem findSome?_rebind {β : Type} (f : Ref .scope × Scope → Option β)
    (hf : ∀ e, f (reboundEntry s b' e) = f e) (r : Ref .scope) :
    ((w.rebind s b').scopeChain r).findSome? f = (w.scopeChain r).findSome? f := by
  rw [scopeChain_rebind, List.findSome?_map]
  exact congrArg (fun g => List.findSome? g (w.scopeChain r)) (funext hf)

theorem declaration?_rebind (r : Ref .scope) (name : String) :
    (w.rebind s b').declaration? r name = w.declaration? r name := by
  refine findSome?_rebind _ (fun e => ?_) r
  change ((reboundEntry s b' e).2.locals.get? name).map _ = _
  rw [locals_reboundEntry]

theorem thisOf_rebind (r : Ref .scope) : (w.rebind s b').thisOf r = w.thisOf r :=
  congrArg (fun v => Option.getD v Value.undefined) (findSome?_rebind _ this_reboundEntry r)

theorem rootOf_rebind (r : Ref .scope) : (w.rebind s b').rootOf r = w.rootOf r := by
  rw [rootOf, rootOf, scopeChain_rebind, List.getLast?_map]
  cases (w.scopeChain r).getLast? <;> rfl

/-- A root lies on what it lay on, or on the other bindings. -/
theorem globalsOf_rebind (h : w.LiesOn s b) (r : Ref .scope) :
    (w.rebind s b').globalsOf r = w.globalsOf r ∨
      w.globalsOf r = some b ∧ (w.rebind s b').globalsOf r = some b' := by
  obtain ⟨x, hx, hglobals, -⟩ := h
  rw [globalsOf, globalsOf, scopeChain_rebind, List.getLast?_map]
  cases hlast : (w.scopeChain r).getLast? with
  | none => exact .inl rfl
  | some e =>
    obtain ⟨q, y⟩ := e
    by_cases hq : s = q
    · subst hq
      have hy : w.scopes.get? s = some y := get?_of_mem_chainFrom (List.mem_of_getLast? hlast)
      obtain rfl : x = y := Option.some.inj (hx.symm.trans hy)
      have hrebound : reboundEntry s b' (s, x) = (s, x.rebind b') := by
        unfold reboundEntry
        rw [if_pos rfl]
      simp only [Option.map_some, Option.bind_some, hrebound, Scope.rebind]
      rcases hglobals with hglobals | hglobals
      · rw [hglobals]
        exact .inr ⟨rfl, rfl⟩
      · rw [hglobals]
        exact .inl rfl
    · -- another root keeps its bindings
      refine .inl ?_
      have hrebound : reboundEntry s b' (q, y) = (q, y) := by
        unfold reboundEntry
        rw [if_neg hq]
      simp only [Option.map_some, hrebound]

theorem setVariable_rebind (r : Ref .scope) (name : String) (v : Variable) :
    (w.rebind s b').setVariable r name v = (w.setVariable r name v).rebind s b' :=
  congrArg w.withScopes (Table.update_update fun _ => rfl)

theorem emptyScope_rebind (r : Ref .scope) :
    (w.rebind s b').emptyScope r = (w.emptyScope r).rebind s b' :=
  congrArg w.withScopes (Table.update_update fun _ => rfl)

theorem release_rebind (h : Ref .heap) :
    (w.rebind s b').release h = (w.release h).rebind s b' := by
  have hempty : ∀ (rs : List (Ref .scope)) (w : World),
      rs.foldl emptyScope (w.rebind s b') = (rs.foldl emptyScope w).rebind s b' := by
    intro rs
    induction rs with
    | nil => exact fun _ => rfl
    | cons r rest ih =>
      intro w
      rw [List.foldl_cons, emptyScope_rebind, ih, List.foldl_cons]
  have htracked : (w.rebind s b').heaps = w.heaps := rfl
  unfold release
  simp only [htracked, hempty]
  rfl

theorem addScope_rebind (x : Scope) (hs : s.row < w.scopes.size) :
    (w.rebind s b').addScope x = (w.addScope x).rebind s b' := by
  have hfresh : (w.rebind s b').scopes.fresh = w.scopes.fresh :=
    congrArg Ref.mk (Table.size_update w.scopes s _)
  have hadd : (w.rebind s b').scopes.add x = (w.scopes.add x).update s (Scope.rebind b') :=
    Table.update_add _ x hs
  unfold addScope
  rw [hfresh, hadd]
  rfl

/-! ### Worlds that lie on the bindings -/

/-- Anything but scopes may change. -/
theorem LiesOn.of_scopes {w' : World} (h : w.LiesOn s b) (hw : w'.scopes = w.scopes) :
    w'.LiesOn s b := by
  unfold LiesOn
  rwa [hw]

theorem LiesOn.addScope (h : w.LiesOn s b) (x : Scope) : (w.addScope x).LiesOn s b := by
  obtain ⟨y, hy, hrest⟩ := h
  exact ⟨y, Table.get?_add_of_get?_eq_some x hy, hrest⟩

theorem LiesOn.setVariable (h : w.LiesOn s b) (r : Ref .scope) {name : String}
    (hname : script.Takes .identifier name.toList) (v : Variable) :
    (w.setVariable r name v).LiesOn s b := by
  obtain ⟨x, hx, hglobals, hlocals⟩ := h
  have hget : (w.setVariable r name v).scopes.get? s = _ := Table.get?_update w.scopes r s _
  by_cases hr : r = s
  · rw [if_pos hr, hx] at hget
    refine ⟨_, hget, hglobals, fun y u hy => ?_⟩
    rw [OrderedMap.get?_insert] at hy
    split at hy
    · next heq => exact heq ▸ hname
    · exact hlocals y u hy
  · rw [if_neg hr, hx] at hget
    exact ⟨x, hget, hglobals, hlocals⟩

theorem LiesOn.emptyScope (h : w.LiesOn s b) (r : Ref .scope) : (w.emptyScope r).LiesOn s b := by
  obtain ⟨x, hx, hglobals, hlocals⟩ := h
  have hget : (w.emptyScope r).scopes.get? s = _ := Table.get?_update w.scopes r s _
  by_cases hr : r = s
  · rw [if_pos hr, hx] at hget
    exact ⟨_, hget, .inr rfl, fun y u hy => by cases hy⟩
  · rw [if_neg hr, hx] at hget
    exact ⟨x, hget, hglobals, hlocals⟩

theorem LiesOn.release (h : w.LiesOn s b) (r : Ref .heap) : (w.release r).LiesOn s b := by
  have hempty : ∀ (rs : List (Ref .scope)) {w : World}, w.LiesOn s b →
      (rs.foldl World.emptyScope w).LiesOn s b := by
    intro rs
    induction rs with
    | nil => exact id
    | cons r rest ih => exact fun h => ih (h.emptyScope r)
  exact (hempty _ h).of_scopes rfl

end World

end

/-! ### Runs -/

/-- What runs may take for granted of a world whose root scope is compared. -/
structure Reaching (s : Ref .scope) (b : Bindings) (w : World) : Prop where
  holds : Terms.identifiers.Holds w
  root : w.LiesOn s b

/-- **The run does the same on other bindings,** and leaves the two worlds apart in that only. -/
def Run.Apart (s : Ref .scope) (b b' : Bindings) {ε α : Type} (x : Run ε α) : Prop :=
  ∀ w, Reaching s b w → x (w.rebind s b') = ((x w).1, (x w).2.rebind s b') ∧ Reaching s b (x w).2

namespace Run.Apart

variable {b b' : Bindings} {s : Ref .scope} {ε ε' α β : Type} {x : Run ε α}

/-- Where the scopes are left out of it, other scopes make no difference. -/
theorem of_inert (hx : x.Inert Terms.identifiers) : x.Apart s b b' := by
  intro w hw
  have hscopes : (x w).2.scopes = w.scopes :=
    congrArg (fun r => r.2.scopes) (hx.blind w w.scopes)
  refine ⟨?_, hx.holds w hw.holds, hw.root.of_scopes hscopes⟩
  unfold World.rebind
  rw [hx.blind, hscopes]

theorem bind {f : α → Run ε β} (hx : x.Apart s b b')
    (hf : ∀ a, (∃ w w', Terms.identifiers.Holds w ∧ x w = (.done a, w')) → (f a).Apart s b b') :
    (x >>= f).Apart s b b' := by
  intro w hw
  obtain ⟨hrun, hend⟩ := hx w hw
  rw [bind_apply, bind_apply, hrun]
  rcases hr : x w with ⟨a | e | _, w'⟩
  · rw [hr] at hend
    exact hf a ⟨w, w', hw.holds, hr⟩ w' hend
  · rw [hr] at hend
    exact ⟨rfl, hend⟩
  · rw [hr] at hend
    exact ⟨rfl, hend⟩

theorem change {g : World → World} (hg : ∀ w, Reaching s b w →
    g (w.rebind s b') = (g w).rebind s b' ∧ Reaching s b (g w)) :
    (Run.change g : Run ε Unit).Apart s b b' := by
  intro w hw
  obtain ⟨hrun, hend⟩ := hg w hw
  exact ⟨congrArg (Prod.mk _) hrun, hend⟩

theorem read {g : World → α} (hg : ∀ w, Reaching s b w → g (w.rebind s b') = g w) :
    (Run.read g : Run ε α).Apart s b b' :=
  fun w hw => ⟨congrArg (fun a => (Outcome.done a, w.rebind s b')) (hg w hw), hw⟩

/-- A world may be changed when the run is over, if the change alone keeps the worlds apart. -/
theorem andAlways {g : World → World} (hx : x.Apart s b b')
    (hg : (Run.change g : Run ε Unit).Apart s b b') : (Run.andAlways x g).Apart s b b' := by
  intro w hw
  obtain ⟨hrun, hend⟩ := hx w hw
  unfold Run.andAlways
  rw [hrun]
  rcases hr : x w with ⟨a | e | _, w'⟩
  · rw [hr] at hend
    obtain ⟨hrun', hend'⟩ := hg w' hend
    exact ⟨congrArg (Prod.mk _) (Prod.mk.inj hrun').2, hend'⟩
  · rw [hr] at hend
    obtain ⟨hrun', hend'⟩ := hg w' hend
    exact ⟨congrArg (Prod.mk _) (Prod.mk.inj hrun').2, hend'⟩
  · rw [hr] at hend
    exact ⟨rfl, hend⟩

theorem onFailure {g : ε → World → World} (hx : x.Apart s b b')
    (hg : ∀ e, (Run.change (g e) : Run ε Unit).Apart s b b') :
    (Run.onFailure g x).Apart s b b' := by
  intro w hw
  obtain ⟨hrun, hend⟩ := hx w hw
  unfold Run.onFailure
  rw [hrun]
  rcases hr : x w with ⟨a | e | _, w'⟩
  · rw [hr] at hend
    exact ⟨rfl, hend⟩
  · rw [hr] at hend
    obtain ⟨hrun', hend'⟩ := hg e w' hend
    exact ⟨congrArg (Prod.mk _) (Prod.mk.inj hrun').2, hend'⟩
  · rw [hr] at hend
    exact ⟨rfl, hend⟩

theorem attempt (hx : x.Apart s b b') : (Run.attempt x : Run ε' _).Apart s b b' := by
  intro w hw
  obtain ⟨hrun, hend⟩ := hx w hw
  unfold Run.attempt
  rw [hrun]
  rcases hr : x w with ⟨a | e | _, w'⟩ <;> rw [hr] at hend <;> exact ⟨rfl, hend⟩

theorem mapError {g : ε → ε'} (hx : x.Apart s b b') : (Run.mapError g x).Apart s b b' := by
  intro w hw
  obtain ⟨hrun, hend⟩ := hx w hw
  unfold Run.mapError
  rw [hrun]
  rcases hr : x w with ⟨a | e | _, w'⟩ <;> rw [hr] at hend <;> exact ⟨rfl, hend⟩

theorem newScope (x : Scope) : (Run.newScope x : Run ε _).Apart s b b' := by
  intro w hw
  obtain ⟨y, hy, -⟩ := hw.root
  have hfresh : (w.rebind s b').scopes.fresh = w.scopes.fresh :=
    congrArg Ref.mk (Table.size_update w.scopes s _)
  have hrun : (w.rebind s b').addScope x = (w.addScope x).rebind s b' :=
    World.addScope_rebind x (World.lt_size_of_get? hy)
  refine ⟨?_, hw.holds.of_calm (.of_same rfl rfl rfl rfl), hw.root.addScope x⟩
  unfold Run.newScope Run.changeGet
  simp only [hfresh, hrun]

theorem setVariable (r : Ref .scope) {name : String}
    (hname : script.Takes .identifier name.toList) (v : Variable) :
    (Run.change (·.setVariable r name v) : Run ε Unit).Apart s b b' :=
  change fun _ hw => ⟨World.setVariable_rebind r name v,
    hw.holds.of_calm (.of_same rfl rfl rfl rfl), hw.root.setVariable r hname v⟩

theorem tryLookup (hb : b.SameInReach b') (r : Ref .scope) {name : String}
    (hname : script.Takes .identifier name.toList) :
    (Run.tryLookup r name : Run ε _).Apart s b b' := by
  intro w hw
  -- the two bindings mean the same by this name
  have hget : (b'.get? name : Run ε _) = b.get? name := by
    unfold Bindings.get?
    rw [hb.entries name hname]
  have hfound : ∀ c : Bindings, (c.get? name : Run ε _).Apart s b b' := fun c =>
    of_inert (.get? c name)
  unfold Run.tryLookup
  rw [World.declaration?_rebind]
  cases w.declaration? r name with
  | some v => exact ⟨rfl, hw⟩
  | none =>
    dsimp only
    have hglobals : (w.rebind s b').globalsOf r = w.globalsOf r ∨
        w.globalsOf r = some b ∧ (w.rebind s b').globalsOf r = some b' :=
      World.globalsOf_rebind hw.root r
    rcases hglobals with hsame | ⟨hown, hother⟩
    · rw [hsame]
      cases w.globalsOf r with
      | none => exact ⟨rfl, hw⟩
      | some c => exact hfound c w hw
    · rw [hown, hother]
      dsimp only
      rw [hget]
      exact hfound b w hw

theorem assign (r : Ref .scope) {name : String} (hname : script.Takes .identifier name.toList)
    (v : Value) : (Run.assign r name v).Apart s b b' := by
  have hset : ∀ (r : Ref .scope) (u : Variable),
      (Run.change (·.setVariable r name u) : Script Unit).Apart s b b' := fun r u =>
    setVariable r hname u
  intro w hw
  unfold Run.assign
  rw [World.declaration?_rebind, World.rootOf_rebind]
  rcases w.declaration? r name with _ | ⟨q, ⟨u, constant⟩⟩
  · exact hset _ _ w hw
  · cases constant with
    | true => exact ⟨rfl, hw⟩
    | false => exact hset _ _ w hw

theorem newHeap : (Run.newHeap : Run ε _).Apart s b b' := of_inert
  (.of_calm (fun _ _ => rfl) (fun _ => .of_same rfl rfl rfl rfl) (.of_spares .addHeap)
    (.of_same fun _ => ⟨rfl, rfl⟩))

theorem release (h : Ref .heap) : (Run.change (·.release h) : Run ε Unit).Apart s b b' :=
  change fun w hw => ⟨World.release_rebind h, hw.holds.of_calm (.release w h), hw.root.release h⟩

/-- **Operations keep worlds apart in the root only,** as long as the names are identifiers. -/
theorem conduct (hb : b.SameInReach b') :
    Conduct Terms.identifiers (fun x => Run.Apart s b b' x) where
  terms := Terms.identifiers.coherent
  inert := of_inert
  bind := bind
  attempt := attempt
  mapError := mapError
  andAlways := andAlways
  onFailure := onFailure
  heapOf r := read fun _ _ => World.heapOf_rebind r
  thisOf r := read fun _ _ => World.thisOf_rebind r
  newRootScope _ _ := newScope _
  newInnerScope parent _ :=
    bind (read fun _ _ => World.heapOf_rebind parent) fun _ _ => newScope _
  declare r _ _ _ hx := setVariable r hx _
  tryLookup r _ hx := tryLookup hb r hx
  assign r _ v hx := assign r hx v
  onOwnHeap _ _ hf :=
    bind newHeap fun h _ => bind (newScope _) fun s _ => (hf h s).andAlways (release h)

end Run.Apart

/-! ### Evaluations -/

section

variable {b b' : Bindings} {w : World}

/-- A new root lies on its bindings, and has no variables yet. -/
theorem Reaching.addRoot (hw : Terms.identifiers.Holds w) (b : Bindings) (h : Ref .heap) :
    Reaching w.scopes.fresh b (w.addScope (.root b h)) where
  holds := hw.of_calm (.of_same rfl rfl rfl rfl)
  root := ⟨_, Table.get?_add_fresh _ _, .inl rfl, fun y v hy => by cases hy⟩

/-- The root on other bindings. -/
theorem World.addScope_root_rebind (b b' : Bindings) (h : Ref .heap) :
    w.addScope (.root b' h) = (w.addScope (.root b h)).rebind w.scopes.fresh b' := by
  have hadd : w.scopes.add (.root b' h) =
      (w.scopes.add (.root b h)).update w.scopes.fresh (Scope.rebind b') := by
    refine Table.eq_of_get? fun r => ?_
    rw [Table.get?_update, Table.get?_add, Table.get?_add]
    by_cases hr : r = w.scopes.fresh
    · rw [if_pos hr, if_pos hr, if_pos hr.symm]
      rfl
    · rw [if_neg hr, if_neg hr, if_neg (Ne.symm hr)]
  unfold addScope
  rw [hadd]
  rfl

/-- Where there is no scope, none is moved. -/
theorem World.rebind_of_none {s : Ref .scope} (h : w.scopes.get? s = none) : w.rebind s b' = w := by
  have hsame : w.scopes.update s (Scope.rebind b') = w.scopes := by
    refine Table.eq_of_get? fun r => ?_
    rw [Table.get?_update]
    by_cases hr : s = r
    · subst hr
      rw [if_pos rfl, h]
      rfl
    · rw [if_neg hr]
  unfold rebind
  rw [hsame]
  rfl

/-- **A program in a root of its own,** on either of the bindings. -/
theorem Program.evaluate_apart (hb : b.SameInReach b') {p : Program} (hp : p.Tidy)
    (hw : Terms.identifiers.Holds w) (n : Nat) :
    p.evaluate (Machine.ofFuel n).call b' w =
        ((p.evaluate (Machine.ofFuel n).call b w).1,
          (p.evaluate (Machine.ofFuel n).call b w).2.rebind w.scopes.fresh b') ∧
      Reaching w.scopes.fresh b (p.evaluate (Machine.ofFuel n).call b w).2 := by
  have C : Conduct Terms.identifiers (fun x => Run.Apart w.scopes.fresh b b' x) :=
    Run.Apart.conduct hb
  have hrun : (p.run (Machine.ofFuel n).call w.scopes.fresh).Apart w.scopes.fresh b b' :=
    C.program (Machine.ofFuel_conducts C n).call w.scopes.fresh (.inr hp)
  unfold Program.evaluate
  rw [hb.heap]
  cases b.heap with
  | some h =>
    have hroot := hrun _ (Reaching.addRoot hw b h)
    rw [← World.addScope_root_rebind b b' h] at hroot
    exact hroot
  | none =>
    -- the program gets a heap of its own, which is released when it has run
    have hheap : Terms.identifiers.Holds w.addHeap :=
      hw.of_calm (.of_same rfl rfl rfl rfl)
    have hrelease : Run.Apart w.scopes.fresh b b'
        (Run.change (·.release w.heaps.fresh) : Script Unit) :=
      .release _
    have hroot := hrun.andAlways hrelease _ (Reaching.addRoot hheap b w.heaps.fresh)
    have hadd : w.addHeap.addScope (.root b' w.heaps.fresh) =
        (w.addHeap.addScope (.root b w.heaps.fresh)).rebind w.scopes.fresh b' :=
      World.addScope_root_rebind b b' w.heaps.fresh
    rw [← hadd] at hroot
    exact hroot

/-- What two evaluations from one world come to, whose root scopes lie on different bindings. -/
structure Run.ApartFrom (w : World) (b b' : Bindings) (x x' : Script Value) : Prop where
  same : x' w = ((x w).1, (x w).2.rebind w.scopes.fresh b')
  holds : Terms.identifiers.Holds (x w).2
  root : ∀ r, (x w).2.scopes.get? w.scopes.fresh = some r →
    (r.globals = some b ∨ r.globals = none) ∧
      ∀ y v, r.locals.get? y = some v → script.Takes .identifier y.toList

/-- A text that does not parse makes no scope at all. -/
theorem Program.compile_apart (hb : b.SameInReach b') (hw : Terms.identifiers.Holds w) (n : Nat)
    (name text : String) :
    Run.ApartFrom w b b'
      (do let p ← Run.ofExcept (Program.compile name text); p.evaluate (Machine.ofFuel n).call b)
      (do let p ← Run.ofExcept (Program.compile name text)
          p.evaluate (Machine.ofFuel n).call b') := by
  cases hp : Program.compile name text with
  | error fault =>
    refine ⟨?_, hw, fun r hr => ?_⟩
    · exact congrArg (Prod.mk _) (World.rebind_of_none w.scopes.get?_fresh).symm
    · exact absurd (w.scopes.get?_fresh.symm.trans hr) nofun
  | ok p =>
    obtain ⟨hsame, hend⟩ := p.evaluate_apart hb (Program.tidy_of_compile hp) hw n
    refine ⟨hsame, hend.holds, fun r hr => ?_⟩
    obtain ⟨x, hx, hroot⟩ := hend.root
    obtain rfl : x = r := Option.some.inj (hx.symm.trans hr)
    exact hroot

theorem Engine.evaluate_apart (hb : b.SameInReach b') (hw : Terms.identifiers.Holds w) (n : Nat)
    (e : Engine) (name text : String) :
    Run.ApartFrom w b b' (e.evaluate (Machine.ofFuel n).call name text b)
      (e.evaluate (Machine.ofFuel n).call name text b') := by
  cases e with
  | compiling => exact Program.compile_apart hb hw n name text
  | direct =>
    -- the line that the engine writes before makes no scope
    have hnoted : Terms.identifiers.Holds (w.note (.direct name)) :=
      hw.of_calm (.of_same rfl rfl rfl rfl)
    have hstep : ∀ c : Bindings, Engine.direct.evaluate (Machine.ofFuel n).call name text c w =
        (do let p ← Run.ofExcept (Program.compile name text)
            p.evaluate (Machine.ofFuel n).call c : Script Value) (w.note (.direct name)) :=
      fun c => by
        unfold Engine.evaluate
        rw [if_pos (by decide)]
        exact Run.bind_of_done (Run.change_apply _ _)
    obtain ⟨hsame, hholds, hroot⟩ := Program.compile_apart hb hnoted n name text
    constructor
    · rw [hstep, hstep]
      exact hsame
    · rw [hstep]
      exact hholds
    · rw [hstep]
      exact hroot

/-- **Names that are no identifiers are out of reach.** Evaluating the text of a script against two
bindings that differ only under such names comes to the same and ends in the same world: what was
written, logged, read for the first time and remembered is the same, whatever there is under these
names in either of them. Only what the root scope lies on differs. That is still what the host gave,
unless the heap was released, and no variable hides it. What is called, told or drained later keeps
the two worlds apart in that only. The reserved names are no identifiers. -/
theorem Engine.evaluate_out_of_reach (hb : b.SameInReach b') (hw : w.TidyFunctions) (n : Nat)
    (e : Engine) (name text : String) :
    e.evaluate (Machine.ofFuel n).call name text b' w =
        ((e.evaluate (Machine.ofFuel n).call name text b w).1,
          (e.evaluate (Machine.ofFuel n).call name text b w).2.rebind w.scopes.fresh b') ∧
      (∀ x, (e.evaluate (Machine.ofFuel n).call name text b w).2.scopes.get? w.scopes.fresh =
          some x → (x.globals = some b ∨ x.globals = none) ∧
        ∀ y v, x.locals.get? y = some v → script.Takes .identifier y.toList) ∧
      (e.evaluate (Machine.ofFuel n).call name text b w).2.TidyFunctions ∧
      (Machine.ofFuel n).Conducts (fun x => Run.Apart w.scopes.fresh b b' x) ∧
      ∀ x ∈ [ReservedName.scriptFilename, ReservedName.resourceType, ReservedName.renderScript],
        ¬ script.Takes .identifier x.toList := by
  obtain ⟨hsame, hholds, hroot⟩ :=
    e.evaluate_apart hb (Terms.identifiers.holds_iff.2 hw) n name text
  exact ⟨hsame, hroot, Terms.identifiers.holds_iff.1 hholds,
    Machine.ofFuel_conducts (Run.Apart.conduct hb) n, by decide +kernel⟩

/-- What is bound besides under a name that is no identifier makes no difference to scripts. -/
theorem Bindings.SameInReach.putLazy {name : String}
    (hname : ¬ script.Takes .identifier name.toList) (b : Bindings) (c : Ref .cell) :
    (b.putLazy name c).SameInReach b where
  entries x hx := by
    have hne : name ≠ x := fun h => hname (h ▸ hx)
    exact ((OrderedMap.get?_insert _ _ _ _).trans (if_neg hne)).symm
  heap := rfl

/-- A world in which the host would say where the script is, if it were asked. -/
def World.unasked : World :=
  { cells := ⟨#[⟨.host ReservedName.scriptFilename (.text "/page.js"), none⟩]⟩ }

/-- What a script may greet with. -/
def Bindings.greeting : Bindings := Bindings.put {} "greeting" (.text "hello")

/-- A script that greets does so with or without a place of its own, and nobody is asked for it. -/
theorem Engine.greeting_out_of_reach :
    (Bindings.greeting.putLazy ReservedName.scriptFilename ⟨0⟩).SameInReach .greeting ∧
    World.unasked.TidyFunctions ∧
    compiling.evaluate (Machine.ofFuel 1).call "/page.js" "greeting + '!'" .greeting .unasked =
      ((compiling.evaluate (Machine.ofFuel 1).call "/page.js" "greeting + '!'"
          (Bindings.greeting.putLazy ReservedName.scriptFilename ⟨0⟩) .unasked).1,
        (compiling.evaluate (Machine.ofFuel 1).call "/page.js" "greeting + '!'"
          (Bindings.greeting.putLazy ReservedName.scriptFilename ⟨0⟩) .unasked).2.rebind ⟨0⟩
            .greeting) ∧
    (compiling.evaluate (Machine.ofFuel 1).call "/page.js" "greeting + '!'"
      (Bindings.greeting.putLazy ReservedName.scriptFilename ⟨0⟩) .unasked).1.value?.bind
        Value.asText? = some "hello!" ∧
    ((compiling.evaluate (Machine.ofFuel 1).call "/page.js" "greeting + '!'"
      (Bindings.greeting.putLazy ReservedName.scriptFilename ⟨0⟩) .unasked).2.cells.get? ⟨0⟩).map
        (·.value.isSome) = some false := by
  have hsame : (Bindings.greeting.putLazy ReservedName.scriptFilename ⟨0⟩).SameInReach .greeting :=
    .putLazy (by decide +kernel) _ _
  have htidy : World.unasked.TidyFunctions := fun f c hc => by cases hc
  obtain ⟨hrun, -⟩ := evaluate_out_of_reach hsame htidy 1 compiling "/page.js" "greeting + '!'"
  exact ⟨hsame, htidy, hrun, by decide +kernel, by decide +kernel⟩

end

end ScriptModules
