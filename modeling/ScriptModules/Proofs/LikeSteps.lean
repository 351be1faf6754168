import ScriptModules.Proofs.Likeness

/-!
# What worlds that are alike show, and how they change

Whoever looks at corresponding things of two worlds that are alike sees the same, up to identity: items,
properties, names of functions, the chain of a scope and what it says about names and `this`, how deep
calls are nested, and the text, the number and the picture of a value. And when corresponding things
change alike, or new ones are made, the worlds stay alike.
-/

namespace ScriptModules

/-! ### Related lists and options -/

section

variable {α β γ δ : Type} {R : α → β → Prop} {Q : γ → δ → Prop}

theorem exists_right_of_rel {a : α} {y : Option β} (h : Option.Rel R (some a) y) :
    ∃ b, y = some b ∧ R a b := by
  cases h with
  | some h => exact ⟨_, rfl, h⟩

theorem exists_left_of_rel {x : Option α} {b : β} (h : Option.Rel R x (some b)) :
    ∃ a, x = some a ∧ R a b := by
  cases h with
  | some h => exact ⟨_, rfl, h⟩

theorem rel_map {x : Option α} {y : Option β} (h : Option.Rel R x y) {f : α → γ} {g : β → δ}
    (hf : ∀ a b, R a b → Q (f a) (g b)) : Option.Rel Q (x.map f) (y.map g) := by
  cases h with
  | some h => exact .some (hf _ _ h)
  | none => exact .none

theorem findSome?_rel {l : List α} {l' : List β} (h : List.Forall₂ R l l') {f : α → Option γ}
    {g : β → Option δ} (hf : ∀ a b, R a b → Option.Rel Q (f a) (g b)) :
    Option.Rel Q (l.findSome? f) (l'.findSome? g) := by
  induction h with
  | nil => exact .none
  | @cons a b _ _ hab _ ih =>
    rw [List.findSome?_cons, List.findSome?_cons]
    have hrel := hf a b hab
    generalize f a = x at hrel
    generalize g b = y at hrel
    cases hrel with
    | some h => exact .some h
    | none => exact ih

theorem map_eq_of_related {l : List α} {l' : List β} (h : List.Forall₂ R l l') {f : α → γ}
    {g : β → γ} (hf : ∀ a b, R a b → f a = g b) : l.map f = l'.map g := by
  rw [← List.forall₂_eq_eq_eq, List.forall₂_map_left_iff, List.forall₂_map_right_iff]
  exact h.imp hf

theorem mapM_eq_of_related {l : List α} {l' : List β} (h : List.Forall₂ R l l') {f : α → Option γ}
    {g : β → Option γ} (hf : ∀ a b, R a b → f a = g b) : l.mapM f = l'.mapM g := by
  induction h with
  | nil => rfl
  | cons hab _ ih => rw [List.mapM_cons, List.mapM_cons, ih, hf _ _ hab]

theorem getLast?_rel {l : List α} {l' : List β} (h : List.Forall₂ R l l') :
    Option.Rel R l.getLast? l'.getLast? := by
  induction h with
  | nil => exact .none
  | @cons a b l l' hab hrest ih =>
    cases hrest with
    | nil => exact .some hab
    | cons => exact ih

end

variable {p : Starts} {w w' w₁ w₁' : World}

/-! ### What corresponding things look like -/

namespace World.Alike

theorem items (h : World.Alike p w w') {l l' : Ref .list}
    (hl : Ref.Matches p.left.lists.size p.right.lists.size l l') :
    AllAlike (Value.Alike p) (w.items l) (w'.items l') :=
  rel_getD (h.lists.rows hl) .nil

theorem object (h : World.Alike p w w') {o o' : Ref .object}
    (ho : Ref.Matches p.left.objects.size p.right.objects.size o o') :
    Object.Alike p (w.object o) (w'.object o') :=
  rel_getD (h.objects.rows ho) ⟨.nil, rfl, rfl⟩

theorem functionName (h : World.Alike p w w') {f f' : Ref .function}
    (hf : Ref.Matches p.left.functions.size p.right.functions.size f f') :
    w.functionName f = w'.functionName f' := by
  unfold World.functionName
  have hrel := h.functions.rows hf
  generalize w.functions.get? f = x at hrel ⊢
  generalize w'.functions.get? f' = x' at hrel ⊢
  cases hrel with
  | none => rfl
  | some hf => cases hf <;> rfl

/-- Calls are nested alike. -/
theorem depth (h : World.Alike p w w') {r r' : Ref .heap} (hr : p.Heaps r r') :
    w.depth r = w'.depth r' := by
  unfold World.depth
  rcases hr with ⟨hshared, rfl⟩ | ⟨hnone, hr⟩
  · obtain ⟨x, x', hx, hx', hdepth⟩ := h.shared r' hshared
    rw [hx, hx']
    exact hdepth
  · have hrel := (h.heaps hnone).rows hr
    generalize w.heaps.get? r = x at hrel
    generalize w'.heaps.get? r' = x' at hrel
    cases hrel with
    | none => rfl
    | some hx => exact hx.depth

/-! ### The chain of a scope -/

/-- Corresponding scopes of two chains. -/
def Entries (p : Starts) (e e' : Ref .scope × Scope) : Prop :=
  p.Scopes e.1 e'.1 ∧ Scope.Alike p e.2 e'.2

theorem chainFrom (h : World.Alike p w w') {s s' : Ref .scope} (hs : p.Scopes s s') (n : Nat) :
    List.Forall₂ (Entries p) (w.chainFrom n s) (w'.chainFrom n s') := by
  induction n generalizing s s' with
  | zero => exact .nil
  | succ n ih =>
    rw [World.chainFrom, World.chainFrom]
    have hrel := h.scopes.rows hs
    generalize w.scopes.get? s = x at hrel ⊢
    generalize w'.scopes.get? s' = x' at hrel ⊢
    cases hrel with
    | none => exact .nil
    | @some x x' hx =>
      refine .cons ⟨hs, hx⟩ ?_
      have hparent := hx.parent
      generalize x.parent = q at hparent ⊢
      generalize x'.parent = q' at hparent ⊢
      cases hparent with
      | none => exact .nil
      | some hq => exact ih hq

/-- In the first world the chain of a scope does not need more fuel than it gets. -/
theorem chainFrom_left (h : World.Alike p w w') {s s' : Ref .scope} (hs : p.Scopes s s') {n : Nat}
    (hn : s.row < n) : w.chainFrom n s = w.scopeChain s := by
  refine World.chainFrom_eq (P := fun s => ∃ s', p.Scopes s s') ?_ ⟨s', hs⟩ hn (Nat.lt_succ_self _)
  rintro s x q ⟨s', hs⟩ hx hq
  obtain ⟨x', -, halike⟩ := exists_right_of_rel (hx ▸ h.scopes.rows hs)
  obtain ⟨q', -, hq'⟩ := exists_right_of_rel (hq ▸ halike.parent)
  exact ⟨⟨q', hq'⟩, h.parents s x q hs.le_left hx hq⟩

/-- Nor in the second one. -/
theorem chainFrom_right (h : World.Alike p w w') {s s' : Ref .scope} (hs : p.Scopes s s') {n : Nat}
    (hn : s'.row < n) : w'.chainFrom n s' = w'.scopeChain s' := by
  refine World.chainFrom_eq (P := fun s' => ∃ s, p.Scopes s s') ?_ ⟨s, hs⟩ hn (Nat.lt_succ_self _)
  rintro s' x' q' ⟨s, hs⟩ hx' hq'
  obtain ⟨x, hx, halike⟩ := exists_left_of_rel (hx' ▸ h.scopes.rows hs)
  obtain ⟨q, hq, hqq⟩ := exists_left_of_rel (hq' ▸ halike.parent)
  refine ⟨⟨q, hqq⟩, ?_⟩
  -- rows of the second world keep the distance of those of the first one
  obtain ⟨i, hi, hi'⟩ := hs
  obtain ⟨j, hj, hj'⟩ := hqq
  have hlt := h.parents s x q (by omega) hx hq
  omega

/-- **Corresponding scopes have chains that are alike.** -/
theorem scopeChain (h : World.Alike p w w') {s s' : Ref .scope} (hs : p.Scopes s s') :
    List.Forall₂ (Entries p) (w.scopeChain s) (w'.scopeChain s') := by
  have hchain := h.chainFrom hs (s.row + s'.row + 1)
  rwa [h.chainFrom_left hs (by omega), h.chainFrom_right hs (by omega)] at hchain

theorem declaration? (h : World.Alike p w w') {s s' : Ref .scope} (hs : p.Scopes s s')
    (name : String) :
    Option.Rel (fun d d' => p.Scopes d.1 d'.1 ∧ Variable.Alike p d.2 d'.2)
      (w.declaration? s name) (w'.declaration? s' name) :=
  findSome?_rel (h.scopeChain hs) fun _ _ he =>
    rel_map (he.2.locals.get? name) fun _ _ hv => ⟨he.1, hv⟩

theorem thisOf (h : World.Alike p w w') {s s' : Ref .scope} (hs : p.Scopes s s') :
    Value.Alike p (w.thisOf s) (w'.thisOf s') :=
  rel_getD (findSome?_rel (h.scopeChain hs) fun _ _ he => he.2.this) .undefined

theorem globalsOf (h : World.Alike p w w') {s s' : Ref .scope} (hs : p.Scopes s s') :
    w.globalsOf s = w'.globalsOf s' ∧ ∀ b, w.globalsOf s = some b → b = p.bindings := by
  have hlast := getLast?_rel (h.scopeChain hs)
  unfold World.globalsOf
  generalize (w.scopeChain s).getLast? = e at hlast ⊢
  generalize (w'.scopeChain s').getLast? = e' at hlast ⊢
  cases hlast with
  | none => exact ⟨rfl, nofun⟩
  | some he => exact ⟨he.2.globals, he.2.bindings⟩

theorem rootOf (h : World.Alike p w w') {s s' : Ref .scope} (hs : p.Scopes s s') :
    p.Scopes (w.rootOf s) (w'.rootOf s') := by
  have hlast := getLast?_rel (h.scopeChain hs)
  unfold World.rootOf
  generalize (w.scopeChain s).getLast? = e at hlast ⊢
  generalize (w'.scopeChain s').getLast? = e' at hlast ⊢
  cases hlast with
  | none => exact hs
  | some he => exact he.1

/-- A scope that exists lies on corresponding heaps. -/
theorem heapOf (h : World.Alike p w w') {s s' : Ref .scope} (hs : p.Scopes s s')
    (hlt : s.row < w.scopes.size) : p.Heaps (w.heapOf s) (w'.heapOf s') := by
  obtain ⟨x, hx⟩ := Table.exists_of_lt_size hlt
  have hrel := h.scopes.rows hs
  unfold World.heapOf
  rw [hx] at hrel ⊢
  generalize w'.scopes.get? s' = x' at hrel ⊢
  cases hrel with
  | some halike => exact halike.heap

/-! ### Texts, numbers and pictures -/

theorem toTextIn (h : World.Alike p w w') {v v' : Value} (hv : Value.Alike p v v') (n : Nat) :
    v.toTextIn w n = v'.toTextIn w' n := by
  induction n generalizing v v' with
  | zero =>
    cases hv with
    | function hf => simp only [Value.toTextIn, h.functionName hf]
    | _ => rfl
  | succ n ih =>
    cases hv with
    | function hf => simp only [Value.toTextIn, h.functionName hf]
    | @list l l' hl =>
      simp only [Value.toTextIn]
      rw [mapM_eq_of_related (h.items hl) fun v v' hv => by rw [hv.isNullish, ih hv]]
    | _ => rfl

/-- **Values that are alike have the same text.** -/
theorem toText? (h : World.Alike p w w') {v v' : Value} (hv : Value.Alike p v v') :
    v.toText? w = v'.toText? w' := by
  -- the worlds may have different numbers of lists, so both conversions get the fuel of the other too
  have hleft := Value.toTextIn_stable (w := w) (n := w.lists.size + w'.lists.size + 1) (by omega)
  have hright := Value.toTextIn_stable (w := w') (n := w.lists.size + w'.lists.size + 1) (by omega)
  rw [← hleft, ← hright]
  exact h.toTextIn hv _

theorem toNumberIn (h : World.Alike p w w') {v v' : Value} (hv : Value.Alike p v v') (n : Nat) :
    v.toNumberIn w n = v'.toNumberIn w' n := by
  induction n generalizing v v' with
  | zero => cases hv <;> rfl
  | succ n ih =>
    cases hv with
    | @list l l' hl =>
      simp only [Value.toNumberIn]
      have hitems : List.Forall₂ (Value.Alike p) (w.items l).toList (w'.items l').toList := h.items hl
      generalize (w.items l).toList = vs at hitems ⊢
      generalize (w'.items l').toList = vs' at hitems ⊢
      -- only a list of one item has the number of the item
      cases hitems with
      | nil => rfl
      | cons hv hrest =>
        cases hrest with
        | nil => exact ih hv
        | cons => rfl
    | _ => rfl

/-- **Values that are alike have the same number.** -/
theorem toNumber? (h : World.Alike p w w') {v v' : Value} (hv : Value.Alike p v v') :
    v.toNumber? w = v'.toNumber? w' := by
  have hleft := Value.toNumberIn_stable (w := w) (n := w.lists.size + w'.lists.size + 1) (by omega)
  have hright := Value.toNumberIn_stable (w := w') (n := w.lists.size + w'.lists.size + 1) (by omega)
  rw [← hleft, ← hright]
  exact h.toNumberIn hv _

theorem looseEquals? (h : World.Alike p w w') {v v' u u' : Value} (hv : Value.Alike p v v')
    (hu : Value.Alike p u u') : v.looseEquals? w u = v'.looseEquals? w' u' := by
  unfold Value.looseEquals?
  rw [h.toNumber? hv, h.toNumber? hu, hv.isNullish, hu.isNullish, hv.strictEquals hu]
  -- what is compared depends on the kinds of the values only
  cases hv <;> cases hu <;> rfl

theorem pictureIn_function (h : World.Alike p w w') {f f' : Ref .function}
    (hf : Ref.Matches p.left.functions.size p.right.functions.size f f') (n : Nat)
    (above above' : List Value) :
    (Value.function f).pictureIn w n above = (Value.function f').pictureIn w' n above' := by
  have hname := h.functionName hf
  have hrel := h.functions.rows hf
  simp only [Value.pictureIn, hname]
  generalize w.functions.get? f = x at hrel ⊢
  generalize w'.functions.get? f' = x' at hrel ⊢
  cases hrel with
  | none => rfl
  | some hx => cases hx <;> rfl

theorem pictureIn (h : World.Alike p w w') (n : Nat) {above above' : List Value}
    (habove : List.Forall₂ (Value.Alike p) above above') {v v' : Value} (hv : Value.Alike p v v') :
    v.pictureIn w n above = v'.pictureIn w' n above' := by
  induction n generalizing above above' v v' with
  | zero =>
    cases hv with
    | function hf => exact h.pictureIn_function hf 0 above above'
    | _ => rfl
  | succ n ih =>
    have hmet := hv.any_strictEquals habove
    cases hv with
    | function hf => exact h.pictureIn_function hf (n + 1) above above'
    | @list l l' hl =>
      simp only [Value.pictureIn, hmet]
      rw [map_eq_of_related (h.items hl) fun v v' hv => ih (.cons (.list hl) habove) hv]
    | @object o o' ho =>
      simp only [Value.pictureIn, hmet]
      rw [map_eq_of_related (h.object ho).properties fun e e' he => by
        rw [he.1, ih (.cons (.object ho) habove) he.2]]
    | _ => rfl

/-- **One sees the same of values that are alike.** -/
theorem picture (h : World.Alike p w w') {v v' : Value} (hv : Value.Alike p v v') :
    v.picture w = v'.picture w' := by
  have hleft := Value.pictureIn_stable (w := w)
    (n := Value.holderCount w + Value.holderCount w' + 1) (by omega)
  have hright := Value.pictureIn_stable (w := w')
    (n := Value.holderCount w + Value.holderCount w' + 1) (by omega)
  rw [← hleft, ← hright]
  exact h.pictureIn _ .nil hv

/-! ### Changes -/

/-- Nothing but lazy cells and what nobody reads back has changed. -/
structure SameStore (w w' : World) : Prop where
  lists : w'.lists = w.lists
  objects : w'.objects = w.objects
  functions : w'.functions = w.functions
  scopes : w'.scopes = w.scopes
  heaps : w'.heaps = w.heaps
  cells : w.CellsSettle w'

theorem replace (h : World.Alike p w w') (hw : SameStore w w₁) (hw' : SameStore w' w₁') :
    World.Alike p w₁ w₁' where
  lists := by
    rw [hw.lists, hw'.lists]
    exact h.lists
  objects := by
    rw [hw.objects, hw'.objects]
    exact h.objects
  functions := by
    rw [hw.functions, hw'.functions]
    exact h.functions
  scopes := by
    rw [hw.scopes, hw'.scopes]
    exact h.scopes
  heaps := by
    rw [hw.heaps, hw'.heaps]
    exact h.heaps
  shared := by
    rw [hw.heaps, hw'.heaps]
    exact h.shared
  cells := h.cells.trans hw.cells
  cells' := h.cells'.trans hw'.cells
  parents := by
    rw [hw.scopes]
    exact h.parents
  closures := by
    rw [hw.functions, hw.scopes]
    exact h.closures

theorem addList (h : World.Alike p w w') {vs vs' : Array Value} (hvs : AllAlike (Value.Alike p) vs vs') :
    World.Alike p { w with lists := w.lists.add vs } { w' with lists := w'.lists.add vs' } :=
  { h with lists := h.lists.add hvs }

theorem addObject (h : World.Alike p w w') {o o' : Object} (ho : Object.Alike p o o') :
    World.Alike p { w with objects := w.objects.add o } { w' with objects := w'.objects.add o' } :=
  { h with objects := h.objects.add ho }

/-- A new function; the scope of a closure exists. -/
theorem addFunction (h : World.Alike p w w') {f f' : Callable} (hf : Callable.Alike p f f')
    (hc : ∀ c, f = .closure c → c.scope.row < w.scopes.size) :
    World.Alike p { w with functions := w.functions.add f }
      { w' with functions := w'.functions.add f' } :=
  { h with
    functions := h.functions.add hf
    closures := by
      intro r c hr hget
      have hget : (w.functions.add f).get? r = some (.closure c) := hget
      rw [Table.get?_add] at hget
      split at hget
      · exact hc c (Option.some.inj hget)
      · exact h.closures r c hr hget }

theorem changeItems (h : World.Alike p w w') {l l' : Ref .list}
    (hl : Ref.Matches p.left.lists.size p.right.lists.size l l') {f g : Array Value → Array Value}
    (hfg : ∀ vs vs', AllAlike (Value.Alike p) vs vs' → AllAlike (Value.Alike p) (f vs) (g vs')) :
    World.Alike p (w.changeItems l f) (w'.changeItems l' g) :=
  { h with lists := h.lists.update hl hfg }

/-- Nobody watches the object, so nothing else comes of it. -/
theorem setProperty (h : World.Alike p w w') {o o' : Ref .object}
    (ho : Ref.Matches p.left.objects.size p.right.objects.size o o') (key : String) {v v' : Value}
    (hv : Value.Alike p v v') : World.Alike p (w.setProperty o key v) (w'.setProperty o' key v') := by
  have hobject := h.object ho
  unfold World.setProperty
  rw [hobject.watch, hobject.watch']
  exact { h with
    objects := h.objects.update ho fun x x' hx => ⟨hx.properties.insert key hv, hx.watch, hx.watch'⟩ }

theorem setVariable (h : World.Alike p w w') {s s' : Ref .scope} (hs : p.Scopes s s') (name : String)
    {v v' : Variable} (hv : Variable.Alike p v v') :
    World.Alike p (w.setVariable s name v) (w'.setVariable s' name v') :=
  { h with
    scopes := h.scopes.update hs fun x x' hx => { hx with locals := hx.locals.insert name hv }
    parents := by
      intro r x q hr hx hq
      have hx : (w.scopes.update s _).get? r = some x := hx
      rw [Table.get?_update] at hx
      split at hx
      · obtain ⟨y, hy, rfl⟩ := Option.map_eq_some_iff.mp hx
        exact h.parents r y q hr hy hq
      · exact h.parents r x q hr hx hq
    closures := by
      have hsize : (w.setVariable s name v).scopes.size = w.scopes.size := Table.size_update _ _ _
      rw [hsize]
      exact h.closures }

/-- Corresponding heaps change alike. -/
theorem updateHeap (h : World.Alike p w w') {r r' : Ref .heap} (hr : p.Heaps r r') {f g : Heap → Heap}
    (hdepth : ∀ x x', x.depth = x'.depth → (f x).depth = (g x').depth)
    (hscopes : ∀ x x', List.Forall₂ p.Scopes x.scopes x'.scopes →
      List.Forall₂ p.Scopes (f x).scopes (g x').scopes) :
    World.Alike p { w with heaps := w.heaps.update r f } { w' with heaps := w'.heaps.update r' g } :=
  { h with
    heaps := by
      intro hnone
      rcases hr with ⟨hshared, -⟩ | ⟨-, hr⟩
      · rw [hnone] at hshared
        cases hshared
      · exact (h.heaps hnone).update hr fun x x' hx => ⟨hdepth x x' hx.depth, hscopes x x' hx.scopes⟩
    shared := by
      intro s hs
      -- the heap that the bindings name is the one that changes, since they name one
      rcases hr with ⟨hshared, rfl⟩ | ⟨hnone, -⟩
      · obtain rfl := Option.some.inj (hshared.symm.trans hs)
        obtain ⟨x, x', hx, hx', heq⟩ := h.shared r' hs
        refine ⟨f x, g x', ?_, ?_, hdepth x x' heq⟩
        · rw [Table.get?_update, if_pos rfl, hx]
          rfl
        · rw [Table.get?_update, if_pos rfl, hx']
          rfl
      · rw [hnone] at hs
        cases hs }

theorem setDepth (h : World.Alike p w w') {r r' : Ref .heap} (hr : p.Heaps r r') (n : Nat) :
    World.Alike p (w.setDepth r n) (w'.setDepth r' n) :=
  h.updateHeap hr (fun _ _ _ => rfl) fun _ _ => id

theorem leaveCall (h : World.Alike p w w') {r r' : Ref .heap} (hr : p.Heaps r r') :
    World.Alike p (w.leaveCall r) (w'.leaveCall r') := by
  rw [World.leaveCall, World.leaveCall, h.depth hr]
  exact h.setDepth hr _

/-- A new scope inside one that exists. -/
theorem addScope (h : World.Alike p w w') {s s' : Scope} (hs : Scope.Alike p s s')
    (hparent : ∀ q, s.parent = some q → q.row < w.scopes.size) :
    World.Alike p (w.addScope s) (w'.addScope s') := by
  have hadded : World.Alike p { w with scopes := w.scopes.add s }
      { w' with scopes := w'.scopes.add s' } :=
    { h with
      scopes := h.scopes.add hs
      parents := by
        intro r x q hr hx hq
        have hx : (w.scopes.add s).get? r = some x := hx
        rw [Table.get?_add] at hx
        split at hx
        · next hfresh =>
          obtain rfl := Option.some.inj hx
          subst hfresh
          exact hparent q hq
        · exact h.parents r x q hr hx hq
      closures := by
        intro f c hf hget
        exact Nat.lt_of_lt_of_le (h.closures f c hf hget)
          (Nat.le_of_lt (Nat.lt_of_lt_of_eq (Nat.lt_succ_self _) (Table.size_add _ _).symm)) }
  exact hadded.updateHeap hs.heap (fun _ _ => id) fun _ _ hx => .cons h.scopes.fresh hx

/-- A new heap, where the bindings name none. -/
theorem addHeap (h : World.Alike p w w') (hnone : p.bindings.heap = none) :
    World.Alike p w.addHeap w'.addHeap ∧ p.Heaps w.heaps.fresh w'.heaps.fresh :=
  ⟨{ h with
      heaps := fun _ => (h.heaps hnone).add ⟨rfl, .nil⟩
      shared := by
        intro r hr
        rw [hnone] at hr
        cases hr }, .inr ⟨hnone, (h.heaps hnone).fresh⟩⟩

theorem emptyScope (h : World.Alike p w w') {s s' : Ref .scope} (hs : p.Scopes s s') :
    World.Alike p (w.emptyScope s) (w'.emptyScope s') :=
  { h with
    scopes := h.scopes.update hs fun x x' hx => ⟨.nil, hx.parent, .none, rfl, nofun, hx.heap⟩
    parents := by
      intro r x q hr hx hq
      have hx : (w.scopes.update s _).get? r = some x := hx
      rw [Table.get?_update] at hx
      split at hx
      · obtain ⟨y, hy, rfl⟩ := Option.map_eq_some_iff.mp hx
        exact h.parents r y q hr hy hq
      · exact h.parents r x q hr hx hq
    closures := by
      have hsize : (w.emptyScope s).scopes.size = w.scopes.size := Table.size_update _ _ _
      rw [hsize]
      exact h.closures }

/-- A heap that was made since is released. -/
theorem release (h : World.Alike p w w') (hnone : p.bindings.heap = none) {r r' : Ref .heap}
    (hr : p.Heaps r r') : World.Alike p (w.release r) (w'.release r') := by
  have htracked : List.Forall₂ p.Scopes (w.tracked r) (w'.tracked r') := by
    rcases hr with ⟨hshared, -⟩ | ⟨-, hr⟩
    · rw [hnone] at hshared
      cases hshared
    · have hheap : Heap.Alike p ((w.heaps.get? r).getD {}) ((w'.heaps.get? r').getD {}) :=
        rel_getD ((h.heaps hnone).rows hr) ⟨rfl, .nil⟩
      exact hheap.scopes
  have hempty : ∀ {l l' : List (Ref .scope)} {w w' : World}, List.Forall₂ p.Scopes l l' →
      World.Alike p w w' → World.Alike p (l.foldl World.emptyScope w) (l'.foldl World.emptyScope w') := by
    intro l l' w w' hl
    induction hl generalizing w w' with
    | nil => exact id
    | cons hs _ ih => exact fun h => ih (h.emptyScope hs)
  exact (hempty htracked h).updateHeap hr (fun _ _ => id) fun _ _ _ => .nil

end World.Alike

end ScriptModules
