import ScriptModules.Proofs.ScopeChains
import ScriptModules.Proofs.Steps
import ScriptModules.Proofs.Twins

/-!
# The life of a heap

A heap is made, programs are evaluated on it, functions are called, and every now and then it is
released (`HeapLife`). A release empties the scopes that were made since the one before. The older ones
are not tracked any more: they have neither a `this` nor bindings of the host, but calls may have put
variables into them again. Those can only lie in root scopes, because nothing but an assignment to a
name without a declaration reaches a scope in which no code runs, and it goes to the root
(`HeapLife.released`).

`Lived` is the invariant: scopes made since the last release are tracked, and the others are bare. That
declarations go to tracked scopes only is the reason why the scope in which evaluation takes place has
to be followed (`lived_simulation`).
-/

namespace ScriptModules

open Run

/-- The scope has no `this`, no bindings of the host's, and no variables unless it is a root. -/
structure Scope.Bare (s : Scope) : Prop where
  this : s.this = none
  globals : s.globals = none
  locals : s.parent ≠ none → s.locals = .empty

theorem Scope.bare_emptied (s : Scope) : s.emptied.Bare := ⟨rfl, rfl, fun _ => rfl⟩

/-- **What holds of the scopes on a heap** that was last released when `k` scopes existed. -/
structure Lived (h : Ref .heap) (k : Nat) (w : World) : Prop where
  formed : w.Formed
  heap : h.row < w.heaps.size
  since : k ≤ w.scopes.size
  /-- Scopes made since are tracked, and no others. -/
  tracked : ∀ s x, k ≤ s.row → w.scopes.get? s = some x → x.heap = h → s ∈ w.tracked h
  recent : ∀ s ∈ w.tracked h, k ≤ s.row
  bare : ∀ s x, w.scopes.get? s = some x → x.heap = h → s ∉ w.tracked h → x.Bare

/-! ### Steps -/

namespace Lived

variable {h : Ref .heap} {k : Nat} {w w' : World}

/-- A change that moves no scope and leaves what heaps track. -/
theorem of_samePlaces (hw : Lived h k w) (hplaces : World.SamePlaces w w')
    (hheaps : w'.heaps.size = w.heaps.size) (htracked : w'.tracked h = w.tracked h)
    (hbare : ∀ s x, w'.scopes.get? s = some x → x.heap = h → s ∉ w.tracked h → x.Bare) :
    Lived h k w' where
  formed := hw.formed.of_samePlaces hplaces
  heap := by
    rw [hheaps]
    exact hw.heap
  since := by
    rw [hplaces.size]
    exact hw.since
  tracked s x hk hs hx := by
    obtain ⟨y, hy, -, hyx⟩ := hplaces.of_get? hs
    rw [htracked]
    exact hw.tracked s y hk hy (hyx.trans hx)
  recent := by
    rw [htracked]
    exact hw.recent
  bare s x hs hx hnot := by
    rw [htracked] at hnot
    exact hbare s x hs hx hnot

theorem inert (hw : Lived h k w) (hi : World.Inert w w') : Lived h k w' := by
  refine hw.of_samePlaces ⟨by rw [hi.scopes], fun s => by rw [hi.scopes], hi.closures⟩
    (by rw [hi.heaps]) (by rw [World.tracked, World.tracked, hi.heaps]) fun s x hs => ?_
  rw [hi.scopes] at hs
  exact hw.bare s x hs

theorem setDepth (hw : Lived h k w) (r : Ref .heap) (n : Nat) : Lived h k (w.setDepth r n) :=
  hw.of_samePlaces ⟨rfl, fun _ => rfl, fun _ _ => id⟩ (Table.size_update _ _ _)
    (w.tracked_setDepth r n h) hw.bare

/-- A variable may be stored in a scope that is tracked, and in a root. -/
theorem setVariable (hw : Lived h k w) {s : Ref .scope} (name : String) (v : Variable)
    (hs : ∀ x, w.scopes.get? s = some x → x.heap = h → s ∉ w.tracked h → x.parent = none) :
    Lived h k (w.setVariable s name v) := by
  refine hw.of_samePlaces (w.setVariable_samePlaces s name v) rfl rfl fun r x hr hx hnot => ?_
  rw [World.setVariable, Table.get?_update] at hr
  split at hr
  · next heq =>
    subst heq
    obtain ⟨y, hy, rfl⟩ := Option.map_eq_some_iff.mp hr
    obtain ⟨hthis, hglobals, -⟩ := hw.bare s y hy hx hnot
    exact ⟨hthis, hglobals, fun hp => absurd (hs y hy hx hnot) hp⟩
  · exact hw.bare r x hr hx hnot

theorem addHeap (hw : Lived h k w) : Lived h k w.addHeap where
  formed := ⟨hw.formed.parents, hw.formed.closures⟩
  heap := by
    rw [World.addHeap, Table.size_add]
    exact Nat.lt_succ_of_lt hw.heap
  since := hw.since
  tracked s x hk hs hx := by
    rw [World.tracked, w.heap_addHeap]
    exact hw.tracked s x hk hs hx
  recent := by
    rw [World.tracked, w.heap_addHeap]
    exact hw.recent
  bare s x hs hx hnot := by
    rw [World.tracked, w.heap_addHeap] at hnot
    exact hw.bare s x hs hx hnot

/-- A new scope lies inside one that exists, on the same heap. -/
theorem addScope (hw : Lived h k w) {s : Scope} (hs : ∀ p, s.parent = some p →
    ∃ y, w.scopes.get? p = some y ∧ y.heap = s.heap) : Lived h k (w.addScope s) where
  formed := hw.formed.addScope hs
  heap := by
    have hsize : (w.addScope s).heaps.size = w.heaps.size := Table.size_update _ _ _
    rw [hsize]
    exact hw.heap
  since := Nat.le_trans hw.since (by
    have hsize : (w.addScope s).scopes.size = w.scopes.size + 1 := Table.size_add _ _
    omega)
  tracked r x hk hr hx := by
    have hr : (w.scopes.add s).get? r = some x := hr
    rw [Table.get?_add] at hr
    split at hr
    · next hfresh =>
      obtain rfl := Option.some.inj hr
      subst hfresh hx
      exact w.fresh_mem_tracked hw.heap
    · have hold := hw.tracked r x hk hr hx
      rcases w.tracked_addScope s h with hsame | hmore
      · rwa [hsame]
      · rw [hmore]
        exact List.mem_cons_of_mem _ hold
  recent r hr := by
    rcases w.tracked_addScope s h with hsame | hmore
    · rw [hsame] at hr
      exact hw.recent r hr
    · rw [hmore] at hr
      rcases List.mem_cons.mp hr with rfl | hold
      · exact hw.since
      · exact hw.recent r hold
  bare r x hr hx hnot := by
    have hr : (w.scopes.add s).get? r = some x := hr
    rw [Table.get?_add] at hr
    split at hr
    -- the new scope is tracked if it lies on this heap
    · next hfresh =>
      obtain rfl := Option.some.inj hr
      subst hfresh hx
      exact absurd (w.fresh_mem_tracked hw.heap) hnot
    · refine hw.bare r x hr hx fun hmem => hnot ?_
      rcases w.tracked_addScope s h with hsame | hmore
      · rwa [hsame]
      · rw [hmore]
        exact List.mem_cons_of_mem _ hmem

/-- Releasing another heap. -/
theorem release_of_ne (hw : Lived h k w) {r : Ref .heap} (hr : r ≠ h) :
    Lived h k (w.release r) := by
  refine hw.of_samePlaces (w.release_samePlaces r)
    (by rw [World.heaps_release, Table.size_update]) (w.tracked_release hr) fun s x hs hx hnot => ?_
  have hs : ((w.tracked r).foldl World.emptyScope w).scopes.get? s = some x := hs
  rw [World.get?_emptyScopes] at hs
  split at hs
  · obtain ⟨y, -, rfl⟩ := Option.map_eq_some_iff.mp hs
    exact y.bare_emptied
  · exact hw.bare s x hs hx hnot

/-- A scope after its heap was released: it is empty, or it was not tracked. -/
theorem scope_release {s : Ref .scope} {x : Scope} (hs : (w.release h).scopes.get? s = some x) :
    (s ∈ w.tracked h ∧ ∃ y : Scope, x = y.emptied) ∨ (s ∉ w.tracked h ∧ w.scopes.get? s = some x) := by
  have hs : ((w.tracked h).foldl World.emptyScope w).scopes.get? s = some x := hs
  rw [World.get?_emptyScopes] at hs
  split at hs
  · next hmem =>
    obtain ⟨y, -, rfl⟩ := Option.map_eq_some_iff.mp hs
    exact .inl ⟨hmem, y, rfl⟩
  · next hnot => exact .inr ⟨hnot, hs⟩

/-- After a release all scopes on the heap are bare. -/
theorem bare_release (hw : Lived h k w) {s : Ref .scope} {x : Scope}
    (hs : (w.release h).scopes.get? s = some x) (hx : x.heap = h) : x.Bare := by
  rcases scope_release hs with ⟨-, y, rfl⟩ | ⟨hnot, hold⟩
  · exact y.bare_emptied
  · exact hw.bare s x hold hx hnot

/-- **A release begins a new period.** -/
theorem release (hw : Lived h k w) : Lived h w.scopes.size (w.release h) where
  formed := hw.formed.of_samePlaces (w.release_samePlaces h)
  heap := by
    rw [World.heaps_release, Table.size_update]
    exact hw.heap
  since := Nat.le_of_eq (w.release_samePlaces h).size.symm
  tracked s x hk hs _ := by
    have hlt := World.lt_size_of_get? hs
    rw [(w.release_samePlaces h).size] at hlt
    exact absurd hlt (Nat.not_lt.mpr hk)
  recent s hs := by
    rw [(w.released h).1] at hs
    cases hs
  bare _ _ hs hx _ := hw.bare_release hs hx

/-- A closure of a scope that exists. -/
theorem addClosure (hw : Lived h k w) {c : Closure} (hc : c.scope.row < w.scopes.size) :
    Lived h k { w with functions := w.functions.add (.closure c) } where
  formed := hw.formed.addClosure hc
  heap := hw.heap
  since := hw.since
  tracked := hw.tracked
  recent := hw.recent
  bare := hw.bare

end Lived

/-! ### Evaluation in a scope -/

/-- Evaluation in the scope `s`, which was made since the last release. -/
structure Lived.Inside (h : Ref .heap) (k : Nat) (s : Ref .scope) (w : World) : Prop extends
    Lived h k w where
  made : k ≤ s.row
  there : s.row < w.scopes.size

/-- At least `n` scopes exist. -/
structure Lived.Grown (h : Ref .heap) (k n : Nat) (w : World) : Prop extends Lived h k w where
  size : n ≤ w.scopes.size

section

variable {h : Ref .heap} {k : Nat} {w : World}

/-- A step that moves no scope stays inside. -/
theorem Lived.Inside.step {s : Ref .scope} {w w' : World} (hw : Lived.Inside h k s w)
    (hsize : w'.scopes.size = w.scopes.size) (hw' : Lived h k w') : Lived.Inside h k s w' :=
  ⟨hw', hw.made, by rw [hsize]; exact hw.there⟩

/-- **What is declared in the scope of an evaluation lands in a tracked scope.** -/
theorem declare_inside (s : Ref .scope) (x : String) (v : Value) (constant : Bool) :
    Keeps (Lived.Inside h k s) (fun _ => True) (Run.declare s x v constant : Script Unit) :=
  Leads.change fun _ hw => hw.step (Table.size_update _ _ _)
    (hw.setVariable x _ fun y hy hheap hnot => absurd (hw.tracked s y hw.made hy hheap) hnot)

/-- **What is assigned lands in a scope that has the variable, or in a root.** -/
theorem assign_inside (s : Ref .scope) (x : String) (v : Value) :
    Keeps (Lived.Inside h k s) (fun _ => True) (Run.assign s x v) := by
  intro w hw
  unfold Run.assign
  cases hd : w.declaration? s x with
  | some d =>
    obtain ⟨r, old⟩ := d
    dsimp only
    by_cases hc : old.constant = true
    · rw [if_pos hc]
      exact hw
    · rw [if_neg hc]
      refine hw.step (Table.size_update _ _ _) (hw.setVariable x _ fun y hy hheap hnot => ?_)
      by_contra hparent
      -- a scope that is bare and no root has no variables at all
      obtain ⟨⟨r', z⟩, hmem, hz⟩ := List.exists_of_findSome?_eq_some hd
      obtain ⟨old', hold, hpair⟩ := Option.map_eq_some_iff.mp hz
      obtain ⟨rfl, rfl⟩ := Prod.mk.inj hpair
      obtain rfl := Option.some.inj ((World.get?_of_mem_chainFrom hmem).symm.trans hy)
      rw [(hw.bare r' z hy hheap hnot).locals hparent] at hold
      cases hold
  | none =>
    obtain ⟨y, hy⟩ := Table.exists_of_lt_size hw.there
    obtain ⟨z, -, hz, hparent, -⟩ := hw.formed.root hy
    refine hw.step (Table.size_update _ _ _) (hw.setVariable x _ fun y' hy' _ _ => ?_)
    obtain rfl := Option.some.inj (hz.symm.trans hy')
    exact hparent

/-- A scope that is made inside another is tracked. -/
theorem Lived.newInner (hw : Lived h k w) {s : Ref .scope} (hs : s.row < w.scopes.size)
    (this : Option Value) : Lived.Inside h k w.scopes.fresh
      (w.addScope { parent := some s, this := this, globals := none, heap := w.heapOf s }) := by
  obtain ⟨y, hy⟩ := Table.exists_of_lt_size hs
  have hheap : w.heapOf s = y.heap := by rw [World.heapOf, hy]
  exact { hw.addScope fun p hp => by
            obtain rfl := Option.some.inj hp
            exact ⟨y, hy, hheap.symm⟩ with
          made := hw.since
          there := Nat.lt_of_lt_of_eq (Nat.lt_succ_self _) (Table.size_add _ _).symm }

/-- **Evaluation stays inside of the scopes made since the last release.** -/
theorem lived_simulation (h : Ref .heap) (k : Nat) : Simulation Eq (Beside (Lived.Inside h k)) :=
  have lasts : Lasting (Lived.Inside h k) :=
    { inert := fun hi hw => hw.step (by rw [hi.scopes]) (hw.inert hi)
      closure := fun _ hw => hw.step rfl (hw.addClosure hw.there)
      assign := assign_inside }
  { lasts.exprSimulation with
    declare := fun {s t v v'} x c hv =>
      hv ▸ Beside.twins (x := fun s => Run.declare s x v c) (declare_inside s x v c)
    inner := Beside.inner (fun _ _ hw => ⟨hw.1, rfl, hw.2.1, hw.2.2.newInner hw.2.2.there _⟩)
      fun _ _ hw hp => ⟨hw.1, rfl, hp.toLived, hw.2.2.made, Nat.lt_trans hw.2.2.there hp.there⟩ }

/-! ### Calls and programs -/

variable {call : CallSemantics}
  (hc : ∀ n f this arguments, Keeps (Lived.Grown h k n) (fun _ => True) (call f this arguments))

include hc

theorem lived_calls : CallsAlike Eq (Beside (Lived.Inside h k)) call call := by
  refine CallsAlike.beside fun s f this arguments w hw => ?_
  -- the call loses no scope, so the scope of its caller is still there
  have hends := hc (s.row + 1) f this arguments w ⟨hw.toLived, hw.there⟩
  generalize call f this arguments w = r at hends ⊢
  rcases r with ⟨a | e | _, w₁⟩
  · exact ⟨hends.toLived, hw.made, hends.size⟩
  · exact ⟨hends.toLived, hw.made, hends.size⟩
  · trivial

theorem Closure.invoke_lived (n : Nat) (f : Ref .function) (c : Closure) (this : Value)
    (arguments : Array Value) :
    Leads (fun w => Lived.Grown h k n w ∧ w.functions.get? f = some (.closure c))
      (c.invoke call this arguments) (fun _ => Lived.Grown h k n) fun _ => True := by
  -- the scope of the closure goes on to exist while the call runs
  let J : World → Prop := fun w => Lived.Grown h k n w ∧ c.scope.row < w.scopes.size
  have hrun : Keeps J (fun _ => True) (c.run call this arguments) := by
    have htwins : Twins (fun w w' => w = w' ∧ J w) Eq (c.run call this arguments)
        (c.run call this arguments) := by
      refine Closure.run_twin (lived_simulation h k) (lived_calls hc) c c.scope
        (List.forall₂_same.mpr fun _ _ => rfl) fun hf => ?_
      refine Beside.inner (fun w w' hw => ⟨rfl, rfl, hw.1, hw.2.1.newInner hw.2.2 _⟩) ?_ hf
      intro w w₁ hw hafter
      have hgrown : w.scopes.size < w₁.scopes.size := hafter.there
      exact ⟨rfl, ⟨hafter.toLived, Nat.le_trans hw.2.1.size (Nat.le_of_lt hgrown)⟩,
        Nat.lt_trans hw.2.2 hgrown⟩
    exact htwins.leads (fun w hw => ⟨w, rfl, hw⟩) fun w w' ⟨heq, hw⟩ => hw
  have depth : ∀ {w : World} (r : Ref .heap) (d : Nat), J w → J (w.setDepth r d) :=
    fun r d hw => ⟨⟨hw.1.setDepth r d, hw.1.size⟩, hw.2⟩
  have hinvoke : Keeps J (fun _ => True) (c.invoke call this arguments) := by
    refine Keeps.bind Keeps.read fun r => Keeps.bind ?_ fun _ => hrun.andAlways fun w => depth r _
    intro w hw
    unfold Run.enterCall
    by_cases hd : callLimit ≤ w.depth r
    · rw [if_pos hd]
      exact hw
    · rw [if_neg hd]
      exact depth r _ hw
  exact hinvoke.consequence (fun w hw => ⟨hw.1, hw.1.formed.closures f c hw.2⟩)
    (fun _ _ => And.left) fun _ => id

theorem Program.run_lived (n : Nat) (p : Program) (s : Ref .scope) :
    Leads (fun w => n ≤ s.row ∧ Lived.Inside h k s w) (p.run call s) (fun _ => Lived.Grown h k n)
      fun _ => True :=
  Leads.of_fact fun hn =>
    (Program.run_twin (lived_simulation h k) (lived_calls hc) p s s).leads
      (fun w hw => ⟨w, rfl, rfl, hw⟩)
      fun _ _ hp => ⟨hp.2.2.toLived, Nat.le_trans hn (Nat.le_of_lt hp.2.2.there)⟩

omit hc in
/-- Evaluation begins inside of a new root scope. -/
theorem newRootScope_lived {n : Nat} {Q : Except ScriptError Value → World → Prop} (b : Bindings)
    (r : Ref .heap) {f : Ref .scope → Script Value}
    (hf : ∀ s, Leads (fun w => n ≤ s.row ∧ Lived.Inside h k s w) (f s) Q fun _ => True) :
    Leads (Lived.Grown h k n) (Run.newRootScope b r >>= f) Q fun _ => True := by
  intro w hw
  have hinside : Lived.Inside h k w.scopes.fresh (w.addScope (.root b r)) :=
    { hw.addScope (s := .root b r) fun p (hp : none = some p) => nomatch hp with
      made := hw.since
      there := Nat.lt_of_lt_of_eq (Nat.lt_succ_self _) (Table.size_add _ _).symm }
  exact hf w.scopes.fresh _ ⟨hw.size, hinside⟩

theorem Program.evaluate_lived (n : Nat) (p : Program) (b : Bindings) :
    Keeps (Lived.Grown h k n) (fun _ => True) (p.evaluate call b) := by
  unfold Program.evaluate
  split
  · exact newRootScope_lived b _ (p.run_lived hc n)
  -- a heap of its own is another one, and is released at the end
  · refine Leads.bind_changeGet (R := fun r w => r ≠ h ∧ Lived.Grown h k n w)
      (fun w hw => ⟨fun heq => ?_, hw.addHeap, hw.size⟩) fun r => Leads.of_fact fun hr => ?_
    · subst heq
      exact absurd hw.heap (Nat.lt_irrefl _)
    · refine newRootScope_lived b r fun s => (p.run_lived hc n s).andAlways fun _ w hw => ?_
      exact ⟨hw.release_of_ne hr, by rw [(w.release_samePlaces r).size]; exact hw.size⟩

end

/-- **Machines keep the law of a heap that they do not release.** -/
theorem lived_lawful (h : Ref .heap) (k : Nat) :
    Lawful (.plain (Lived.Grown h k) (fun _ => True) fun _ => True) :=
  lawful_of_inert (fun _ => trivial) (fun hi hw => ⟨hw.inert hi, by rw [hi.scopes]; exact hw.size⟩)
    { closure := fun hc n _ f c this arguments => c.invoke_lived (fun n => hc n []) n f this arguments
      evaluate := fun hc n _ p b => p.evaluate_lived (fun n => hc n []) n b }

/-! ### From one release to the next -/

/-- **The worlds in the life of the heap `h`,** which was last released, or made, when `k` scopes
existed: programs are evaluated, on this heap or another, functions are called, and the heap is
released, in any order. -/
inductive HeapLife (h : Ref .heap) : Nat → World → Prop
  | made {w : World} : w.Formed → h = w.heaps.fresh →
      (∀ s x, w.scopes.get? s = some x → x.heap ≠ h) → HeapLife h w.scopes.size w.addHeap
  | evaluated {k : Nat} {w : World} (n : Nat) (p : Program) (b : Bindings) : HeapLife h k w →
      (p.evaluate (Machine.ofFuel n).call b w).1 ≠ .exhausted →
      HeapLife h k (p.evaluate (Machine.ofFuel n).call b w).2
  | called {k : Nat} {w : World} (n : Nat) (f : Ref .function) (this : Value)
      (arguments : Array Value) : HeapLife h k w →
      ((Machine.ofFuel n).call f this arguments w).1 ≠ .exhausted →
      HeapLife h k ((Machine.ofFuel n).call f this arguments w).2
  | released {k : Nat} {w : World} : HeapLife h k w → HeapLife h w.scopes.size (w.release h)

theorem HeapLife.lived {h : Ref .heap} {k : Nat} {w : World} (life : HeapLife h k w) :
    Lived h k w := by
  -- what code keeps while it runs is kept when it has ended, whether it failed or not
  have ended : ∀ {k : Nat} {w : World} {α : Type} {x : Script α},
      Keeps (Lived.Grown h k 0) (fun _ => True) x → Lived h k w → (x w).1 ≠ .exhausted →
      Lived h k (x w).2 := by
    intro k w α x hx hw hend
    obtain ⟨r, w', heq⟩ := Run.exists_eq_ofExcept hend
    have hafter := hx.of_eq ⟨hw, Nat.zero_le _⟩ heq
    rw [heq]
    cases r <;> exact hafter.toLived
  have kept := fun n k => Machine.ofFuel_keeps (lived_lawful h k) n
  induction life with
  | @made w hformed hh hfresh =>
    subst hh
    refine Lived.mk ⟨hformed.parents, hformed.closures⟩ ?_ (Nat.le_refl _) ?_ ?_ ?_
    · rw [World.addHeap, Table.size_add]
      exact Nat.lt_succ_self _
    · intro s x _ hs hx
      exact absurd hx (hfresh s x hs)
    · intro s hs
      have hnone : w.heaps.get? w.heaps.fresh = none := Array.getElem?_size
      rw [World.tracked, w.heap_addHeap, hnone] at hs
      cases hs
    · intro s x hs hx
      exact absurd hx (hfresh s x hs)
  | @evaluated k w n p b _ hend ih =>
    exact ended (p.evaluate_lived (fun m => (kept n k).call m []) 0 b) ih hend
  | @called k w n f this arguments _ hend ih =>
    exact ended ((kept n k).call 0 [] f this arguments) ih hend
  | released _ ih => exact ih.release

/-- What a name still means after a release, seen from `s`: what it means in the root scope, if that was
made before the release before. -/
def World.remnant (w : World) (k : Nat) (s : Ref .scope) (name : String) : Option Value :=
  if k ≤ (w.rootOf s).row then none
  else ((w.scopes.get? (w.rootOf s)).bind fun x => x.locals.get? name).map Variable.value

namespace Lived

variable {h : Ref .heap} {k : Nat} {w : World}

/-- The variables of a scope after a release. -/
theorem locals_release (hw : Lived h k w) {s : Ref .scope} {x : Scope}
    (hs : w.scopes.get? s = some x) (hx : x.heap = h) :
    ∃ y, (w.release h).scopes.get? s = some y ∧ y.Bare ∧
      y.locals = if k ≤ s.row then .empty else x.locals := by
  obtain ⟨y, hy, -, hheap⟩ := (w.release_samePlaces h).symm_get? hs
  refine ⟨y, hy, hw.bare_release hy (hheap.trans hx), ?_⟩
  rcases scope_release hy with ⟨hmem, z, rfl⟩ | ⟨hnot, hold⟩
  · rw [if_pos (hw.recent s hmem)]
    rfl
  · obtain rfl := Option.some.inj (hold.symm.trans hs)
    rw [if_neg fun hk => hnot (hw.tracked s _ hk hs hx)]

/-- **What a name means after a release,** seen from a scope on the heap. -/
theorem tryLookup_release (hw : Lived h k w) {s : Ref .scope} {x : Scope}
    (hs : w.scopes.get? s = some x) (hx : x.heap = h) (name : String) :
    (Run.tryLookup s name : Script _) (w.release h) =
      (.done (w.remnant k s name), w.release h) := by
  have hafter := hw.release
  have hplaces := w.release_samePlaces h
  obtain ⟨x', hs', -, hx'⟩ := hplaces.symm_get? hs
  have hbare : ∀ s x, (w.release h).scopes.get? s = some x → x.heap = h → x.Bare := fun _ _ =>
    hw.bare_release
  -- the name is looked up in the root, which has only the variables that are left to it
  obtain ⟨z, -, hz, -, hzx⟩ := hw.formed.root hs
  obtain ⟨y, hy, hybare, hlocals⟩ := hw.locals_release hz (hzx.trans hx)
  have hroot := hw.formed.rootOf_of_samePlaces hplaces hs
  obtain ⟨y', hlast, hy', hparent, -⟩ := hafter.formed.root hs'
  rw [hroot] at hy' hlast
  obtain rfl := Option.some.inj (hy.symm.trans hy')
  have hdeclared : (w.release h).declaration? s name =
      (y.locals.get? name).map fun v => (w.rootOf s, v) := by
    rw [hafter.formed.declaration?_eq (fun s x hs hx => (hbare s x hs hx).locals) hs'
      (hx'.trans hx) name, hroot, World.declaration?, hafter.formed.scopeChain_eq hy, hparent]
    show List.findSome? _ [(w.rootOf s, y)] = _
    rw [List.findSome?_singleton]
  have hglobals : (w.release h).globalsOf s = none := by
    rw [World.globalsOf, hlast]
    exact hybare.globals
  have hleft : w.remnant k s name = (y.locals.get? name).map Variable.value := by
    rw [World.remnant, hlocals, hz]
    split <;> rfl
  unfold Run.tryLookup
  rw [hdeclared, hleft]
  cases y.locals.get? name with
  | some v => rfl
  | none => simp only [Option.map_none, hglobals]

end Lived

/-- **After a release closures see next to nothing.** Right after a release of a heap, a scope on it
has no `this`, its own or one around it, and no bindings of the host's. It holds no variable if it was
made since the release before, or lies inside another scope; a root scope that is older keeps the
variables that it had. So a name means nothing, unless it was put into the root scope after that was
released before. -/
theorem HeapLife.released_scope {h : Ref .heap} {k : Nat} {w : World} (life : HeapLife h k w)
    {s : Ref .scope} {x : Scope} (hs : w.scopes.get? s = some x) (hx : x.heap = h) :
    (w.release h).thisOf s = .undefined ∧
    (∃ y, (w.release h).scopes.get? s = some y ∧ y.Bare ∧
      y.locals = if k ≤ s.row then .empty else x.locals) ∧
    ∀ name, (Run.tryLookup s name : Script _) (w.release h) =
      (.done (w.remnant k s name), w.release h) := by
  have hw := life.lived
  obtain ⟨y, hy, hbare, hlocals⟩ := hw.locals_release hs hx
  obtain ⟨y', hy', -, hheap⟩ := (w.release_samePlaces h).symm_get? hs
  exact ⟨hw.release.formed.thisOf_eq_undefined (fun s x hs hx => (hw.bare_release hs hx).this) hy'
    (hheap.trans hx), ⟨y, hy, hbare, hlocals⟩, hw.tryLookup_release hs hx⟩

/-- A script that makes two functions: one sets a variable that is not declared, one reads it. -/
def Program.setAndGet : Program :=
  ⟨[.expression (.object
    [.mk "set" (.function none [] [.expression (.assign .set (.name "x") (.literal (.number 1)))]),
     .mk "get" (.function none [] [.ret (some (.name "x"))])])]⟩

namespace World

/-- The world after that script was evaluated on a heap. -/
def settable : World :=
  (Program.setAndGet.evaluate (Machine.ofFuel 0).call { heap := some ⟨0⟩ } World.empty.addHeap).2

/-- The heap was released, and the variable was set. -/
def setAgain : World :=
  ((Machine.ofFuel 1).call ⟨0⟩ .undefined #[] (settable.release ⟨0⟩)).2

theorem settable_life : HeapLife ⟨0⟩ 0 settable :=
  .evaluated (w := World.empty.addHeap) 0 Program.setAndGet { heap := some ⟨0⟩ }
    (.made empty_formed rfl fun _ _ h => absurd h nofun) nofun

theorem setAgain_life : HeapLife ⟨0⟩ 1 setAgain :=
  .called 1 ⟨0⟩ .undefined #[] (.released settable_life) nofun

/-- **A variable outlives a release** if it was set after the release before, without a declaration: the
second function still reads it. -/
theorem setAgain_outlives : HeapLife ⟨0⟩ 1 setAgain ∧
    ((Machine.ofFuel 1).call ⟨1⟩ .undefined #[] (settable.release ⟨0⟩)).1 =
      .failed (.reference "x is not defined") ∧
    ((Machine.ofFuel 1).call ⟨1⟩ .undefined #[] (setAgain.release ⟨0⟩)).1 = .done (.number 1) :=
  ⟨setAgain_life, rfl, rfl⟩

/-- After the first release nothing is left in the root scope of that script, and after the second one
the variable that was set in between. -/
theorem setAgain_remnant :
    (∀ name, (Run.tryLookup ⟨0⟩ name : Script _) (settable.release ⟨0⟩) =
      (.done none, settable.release ⟨0⟩)) ∧
    (Run.tryLookup ⟨0⟩ "x" : Script _) (setAgain.release ⟨0⟩) =
      (.done (some (.number 1)), setAgain.release ⟨0⟩) :=
  ⟨(settable_life.released_scope (s := ⟨0⟩) rfl rfl).2.2,
    (setAgain_life.released_scope (s := ⟨0⟩) rfl rfl).2.2 "x"⟩

end World

end ScriptModules
