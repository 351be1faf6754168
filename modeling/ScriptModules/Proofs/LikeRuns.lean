import ScriptModules.Machine.Fuel
import ScriptModules.Proofs.LikeSteps

/-!
# Evaluation in worlds that are alike

Evaluation starts in two worlds with bindings to constants (`Bindings.Constant`). Each operation on
values that are alike, in corresponding scopes, goes alike (`alike_simulation`); so does every call of a
function that evaluation can get hold of, which are closures and the methods of lists and texts
(`Machine.calls_alike`). Hence programs go alike (`Program.evaluate_alike`).

Bindings to constants matter in one place. A name that is not declared is looked up in the bindings, and
only a constant can come of it; so nothing that was there before the start gets into an evaluation.
-/

namespace ScriptModules

open Run

/-! ### Bindings to constants -/

/-- The binding has the value, or will have it when it is first read. -/
def Binding.Yields (w : World) (v : Value) : Binding → Prop
  | .value u => u = v
  | .lazy c => ∃ name x, w.cells.get? c = some ⟨.host name v, x⟩ ∧ (x = none ∨ x = some v)

/-- **Every name is bound to a constant.** -/
def Bindings.Constant (b : Bindings) (w : World) : Prop :=
  ∀ e ∈ b.entries.entries, ∃ v, v.isConstant = true ∧ e.2.Yields w v

/-- A binding yields the same after lazy cells were read. -/
theorem Binding.Yields.settle {w w' : World} {v : Value} {e : Binding} (he : e.Yields w v)
    (hw : w.CellsSettle w') : e.Yields w' v := by
  cases e with
  | value u => exact he
  | «lazy» c =>
    obtain ⟨name, x, hc, hx⟩ := he
    obtain ⟨y, hy, hsettles⟩ := hw c _ hc
    cases hsettles with
    | same => exact ⟨name, x, hy, hx⟩
    | realized _ hv =>
      obtain rfl := hv name v rfl
      exact ⟨name, _, hy, .inr rfl⟩

/-- **Reading a binding gives what it yields,** and changes nothing but its cell. -/
theorem Binding.realize_eq (ε : Type) {w : World} {v : Value} {e : Binding} (he : e.Yields w v) :
    ∃ w', (e.realize : Run ε Value) w = (.done v, w') ∧ World.Alike.SameStore w w' := by
  -- reading a binding has no faults, so any will do as its own
  let _ : Faults ε := ⟨fun _ => False⟩
  have hquiet : Run.Within World.Quiet (e.realize : Run ε Value) := e.realize_quiet
  replace hquiet := hquiet w
  cases e with
  | value u =>
    obtain rfl := he
    exact ⟨w, rfl, rfl, rfl, rfl, rfl, rfl, .of_same rfl⟩
  | «lazy» c =>
    obtain ⟨name, x, hc, rfl | rfl⟩ := he
    -- the first read puts the value into the cell, and later ones find it there
    · have hrun : (Run.realize c : Run ε Value) w = (.done v, { w.note (.realized name) with
          cells := w.cells.update c fun cell => { cell with value := some v } }) := by
        unfold Run.realize
        rw [hc]
        rfl
      have hrun' : (Binding.lazy c).realize w = _ := hrun
      rw [hrun'] at hquiet
      replace hquiet : World.Quiet w _ := hquiet
      exact ⟨_, hrun, rfl, rfl, rfl, rfl, rfl, hquiet.cells⟩
    · have hrun : (Run.realize c : Run ε Value) w = (.done v, w) := by
        unfold Run.realize
        rw [hc]
      exact ⟨w, hrun, rfl, rfl, rfl, rfl, rfl, .of_same rfl⟩

theorem OrderedMap.mem_of_get? {α : Type} {m : OrderedMap α} {name : String} {a : α}
    (h : m.get? name = some a) : ∃ x, (x, a) ∈ m.entries := by
  obtain ⟨l⟩ := m
  replace h : OrderedMap.find? name l = some a := h
  induction l with
  | nil => cases h
  | cons e rest ih =>
    rw [OrderedMap.find?] at h
    split at h
    · obtain rfl := Option.some.inj h
      exact ⟨e.1, List.mem_cons_self⟩
    · obtain ⟨x, hx⟩ := ih h
      exact ⟨x, List.mem_cons_of_mem _ hx⟩

/-! ### Operations -/

/-- What two evaluations have in sight from corresponding scopes. -/
structure Starts.Seen (p : Starts) (s s' : Ref .scope) (w w' : World) : Prop extends
    World.Alike p w w' where
  scope : p.Scopes s s'
  there : s.row < w.scopes.size

section

variable {p : Starts} {s s' : Ref .scope}

theorem Starts.Seen.step {w w' w₁ w₁' : World} (h : p.Seen s s' w w')
    (hsize : w₁.scopes.size = w.scopes.size) (hw : World.Alike p w₁ w₁') : p.Seen s s' w₁ w₁' :=
  ⟨hw, h.scope, by rw [hsize]; exact h.there⟩

theorem twins_formOf {α : Type} {f g : World → Option α}
    (h : ∀ w w', World.Alike p w w' → f w = g w') :
    Twins (p.Seen s s') Eq (Run.formOf f : Script α) (Run.formOf g) := by
  intro w w' hw
  unfold Run.formOf
  rw [h w w' hw.toAlike]
  cases g w' with
  | some a => exact .done rfl hw
  | none => exact .exhausted

theorem textOf_alike {v v' : Value} (hv : Value.Alike p v v') :
    Twins (p.Seen s s') Eq (Run.textOf v : Script _) (Run.textOf v') :=
  twins_formOf fun _ _ hw => hw.toText? hv

theorem numberOf_alike {v v' : Value} (hv : Value.Alike p v v') :
    Twins (p.Seen s s') Eq (Run.numberOf v : Script _) (Run.numberOf v') :=
  twins_formOf fun _ _ hw => hw.toNumber? hv

theorem onNumbers_alike {a a' b b' : Value} (ha : Value.Alike p a a') (hb : Value.Alike p b b')
    (f : Float → Float → Float) : Twins (p.Seen s s') (Value.Alike p)
      (BinaryOp.onNumbers f a b : Script _) (BinaryOp.onNumbers f a' b') :=
  (numberOf_alike ha).bind_eq fun _ => (numberOf_alike hb).bind_eq fun _ => .pure .number

/-- Comparing goes alike: alike values are both texts or both not. -/
theorem compareBy_alike {a a' b b' : Value} (ha : Value.Alike p a a') (hb : Value.Alike p b b')
    (texts : String → String → Bool) (ns : Float → Float → Bool) :
    Twins (p.Seen s s') (Value.Alike p) (BinaryOp.compareBy texts ns a b : Script _)
      (BinaryOp.compareBy texts ns a' b') := by
  have bynumber : Twins (p.Seen s s') (Value.Alike p)
      (do
        let x ← Run.numberOf a
        let y ← Run.numberOf b
        return Value.boolean (ns x y) : Script _)
      (do
        let x ← Run.numberOf a'
        let y ← Run.numberOf b'
        return Value.boolean (ns x y)) :=
    (numberOf_alike ha).bind_eq fun _ => (numberOf_alike hb).bind_eq fun _ => .pure .boolean
  cases ha with
  | text =>
    cases hb with
    | text => exact .pure .boolean
    | _ => exact bynumber
  | _ => exact bynumber

/-- **An operator goes alike on values that are alike.** -/
theorem BinaryOp.apply_alike (op : BinaryOp) {a a' b b' : Value} (ha : Value.Alike p a a')
    (hb : Value.Alike p b b') :
    Twins (p.Seen s s') (Value.Alike p) (op.apply a b : Script _) (op.apply a' b') := by
  have loosely : Twins (p.Seen s s') Eq (BinaryOp.loosely a b : Script _) (BinaryOp.loosely a' b') :=
    twins_formOf fun _ _ hw => hw.looseEquals? ha hb
  cases op with
  | add =>
    show Twins _ _ (BinaryOp.addValues a b) (BinaryOp.addValues a' b')
    unfold BinaryOp.addValues
    rw [ha.isTextual, hb.isTextual]
    split
    · exact (textOf_alike ha).bind_eq fun _ => (textOf_alike hb).bind_eq fun _ => .pure .text
    · exact onNumbers_alike ha hb _
  | subtract | multiply | divide | remainder => exact onNumbers_alike ha hb _
  | equal | notEqual => exact loosely.bind_eq fun _ => .pure .boolean
  | strictlyEqual | strictlyUnequal =>
    show Twins _ _ (pure _) (pure _)
    rw [ha.strictEquals hb]
    exact .pure .boolean
  | lessThan | lessThanEqual | greaterThan | greaterThanEqual => exact compareBy_alike ha hb _ _

theorem newList_alike {vs vs' : Array Value} (h : AllAlike (Value.Alike p) vs vs') :
    Twins (p.Seen s s') (fun l l' => Value.Alike p (.list l) (.list l'))
      (Run.newList vs : Script _) (Run.newList vs') :=
  .changeGet fun _ _ hw => ⟨.list hw.lists.fresh, hw.step rfl (hw.addList h)⟩

theorem newFunction_alike {f f' : Callable} (h : Callable.Alike p f f') (hc : ∀ c, f ≠ .closure c) :
    Twins (p.Seen s s') (fun r r' => Value.Alike p (.function r) (.function r'))
      (Run.newFunction f : Script _) (Run.newFunction f') :=
  .changeGet fun _ _ hw =>
    ⟨.function hw.functions.fresh, hw.step rfl (hw.addFunction h fun c hf => absurd hf (hc c))⟩

theorem makeClosure_alike (name : String) (params : List String) (body : Body) (isArrow : Bool) :
    Twins (p.Seen s s') (Value.Alike p) (makeClosure s name params body isArrow)
      (makeClosure s' name params body isArrow) := by
  have hnew : Twins (p.Seen s s') (fun r r' => Value.Alike p (.function r) (.function r'))
      (Run.newFunction (.closure ⟨name, params, body, isArrow, s⟩) : Script _)
      (Run.newFunction (.closure ⟨name, params, body, isArrow, s'⟩)) :=
    .changeGet fun w w' hw => ⟨.function hw.functions.fresh, hw.step rfl
      (hw.addFunction (.closure (c := ⟨name, params, body, isArrow, s⟩) hw.scope) fun c hc => by
        obtain rfl := Callable.closure.inj hc
        exact hw.there)⟩
  exact hnew.bind fun _ _ h => .pure h

/-! ### Names -/

/-- **The bindings are the same in both worlds,** and so are the constants that they hold. -/
theorem get?_alike (hb : p.bindings.Constant p.left) (x : String) :
    Twins (p.Seen s s') (Option.Rel (Value.Alike p)) (p.bindings.get? x : Script _)
      (p.bindings.get? x) := by
  unfold Bindings.get?
  cases he : p.bindings.entries.get? x with
  | none => exact .pure .none
  | some e =>
    obtain ⟨name, hmem⟩ := OrderedMap.mem_of_get? he
    obtain ⟨v, hv, hyields⟩ := hb _ hmem
    intro w w' hw
    obtain ⟨w₁, hrun, hstore⟩ := Binding.realize_eq ScriptError (hyields.settle hw.cells)
    obtain ⟨w₁', hrun', hstore'⟩ := Binding.realize_eq ScriptError (hyields.settle hw.cells')
    show EndAlike _ _ ((e.realize >>= _) w) ((e.realize >>= _) w')
    rw [Run.bind_of_done hrun, Run.bind_of_done hrun']
    exact .done (.some (.constant hv))
      (hw.step (by rw [hstore.scopes]) (hw.replace hstore hstore'))

/-- **A name means the same in corresponding scopes.** -/
theorem tryLookup_alike (hb : p.bindings.Constant p.left) (x : String) :
    Twins (p.Seen s s') (Option.Rel (Value.Alike p)) (Run.tryLookup s x : Script _)
      (Run.tryLookup s' x) := by
  intro w w' hw
  have hdeclared := hw.declaration? hw.scope x
  obtain ⟨hglobals, hbindings⟩ := hw.globalsOf hw.scope
  unfold Run.tryLookup
  generalize w.declaration? s x = d at hdeclared ⊢
  generalize w'.declaration? s' x = d' at hdeclared ⊢
  cases hdeclared with
  | some hd => exact .done (.some hd.2.value) hw
  | none =>
    rw [← hglobals]
    cases hg : w.globalsOf s with
    | none => exact .done .none hw
    | some b =>
      obtain rfl := hbindings b hg
      exact get?_alike hb x w w' hw

theorem declare_alike (x : String) (constant : Bool) {v v' : Value} (hv : Value.Alike p v v') :
    Twins (p.Seen s s') Eq (Run.declare s x v constant : Script _) (Run.declare s' x v' constant) :=
  .change fun _ _ hw => hw.step (Table.size_update _ _ _) (hw.setVariable hw.scope x ⟨hv, rfl⟩)

/-- **An assignment reaches corresponding variables.** -/
theorem assign_alike (x : String) {v v' : Value} (hv : Value.Alike p v v') :
    Twins (p.Seen s s') Eq (Run.assign s x v) (Run.assign s' x v') := by
  intro w w' hw
  have hdeclared := hw.declaration? hw.scope x
  unfold Run.assign
  generalize w.declaration? s x = d at hdeclared ⊢
  generalize w'.declaration? s' x = d' at hdeclared ⊢
  cases hdeclared with
  | none =>
    exact .done rfl (hw.step (Table.size_update _ _ _)
      (hw.setVariable (hw.rootOf hw.scope) x ⟨hv, rfl⟩))
  | @some d d' hd =>
    obtain ⟨r, old⟩ := d
    obtain ⟨r', old'⟩ := d'
    dsimp only
    rw [hd.2.constant]
    split
    · exact .failed hw
    · exact .done rfl (hw.step (Table.size_update _ _ _) (hw.setVariable hd.1 x ⟨hv, rfl⟩))

/-! ### Members -/

theorem items_size {w w' : World} (hw : World.Alike p w w') {l l' : Ref .list}
    (hl : Ref.Matches p.left.lists.size p.right.lists.size l l') :
    (w.items l).size = (w'.items l').size :=
  (hw.items hl).length_eq

theorem items_alike {l l' : Ref .list}
    (hl : Ref.Matches p.left.lists.size p.right.lists.size l l') :
    Twins (p.Seen s s') (AllAlike (Value.Alike p)) (Run.read (·.items l) : Script _)
      (Run.read (·.items l')) :=
  .read fun _ _ hw => hw.items hl

theorem getListMember_alike {l l' : Ref .list}
    (hl : Ref.Matches p.left.lists.size p.right.lists.size l l') (key : String) :
    Twins (p.Seen s s') (Value.Alike p) (Run.getListMember l key) (Run.getListMember l' key) := by
  refine (items_alike hl).bind fun vs vs' hvs => ?_
  have hsize : vs.size = vs'.size := hvs.length_eq
  split
  · rw [hsize]
    exact .pure .number
  · split
    · exact .pure (rel_getD (hvs.getElem? _) .undefined)
    · split
      · exact (newFunction_alike (.listMethod hl) nofun).bind fun _ _ h => .pure h
      · exact .pure .undefined

theorem getTextMember_alike (t key : String) :
    Twins (p.Seen s s') (Value.Alike p) (Run.getTextMember t key) (Run.getTextMember t key) := by
  unfold Run.getTextMember
  split
  · exact .pure .number
  · split
    · split
      · exact .pure .text
      · exact .pure .undefined
    · split
      · exact (newFunction_alike .textMethod nofun).bind fun _ _ h => .pure h
      · exact .pure .undefined

theorem getMember_alike (key : String) {v v' : Value} (hv : Value.Alike p v v') :
    Twins (p.Seen s s') (Value.Alike p) (Run.getMember v key) (Run.getMember v' key) := by
  cases hv with
  | undefined | null => exact .fail
  | boolean | number => exact .pure .undefined
  | text => exact getTextMember_alike _ key
  | list hl => exact getListMember_alike hl key
  | object ho => exact .read fun _ _ hw => rel_getD ((hw.object ho).properties.get? key) .undefined
  | @function f f' hf =>
    show Twins _ _ (if key = "name" then _ else _) (if key = "name" then _ else _)
    split
    · refine .read fun w w' hw => ?_
      rw [hw.functionName hf]
      exact .text
    · exact .pure .undefined

theorem writeItem_alike {vs vs' : Array Value} (h : AllAlike (Value.Alike p) vs vs') (i : Nat)
    {v v' : Value} (hv : Value.Alike p v v') :
    AllAlike (Value.Alike p) (writeItem vs i v) (writeItem vs' i v') := by
  have hsize : vs.size = vs'.size := h.length_eq
  have hset : ∀ {l l' : List Value}, List.Forall₂ (Value.Alike p) l l' → ∀ i,
      List.Forall₂ (Value.Alike p) (l.set i v) (l'.set i v') := by
    intro l l' hl
    induction hl with
    | nil => exact fun _ => .nil
    | cons h hrest ih =>
      intro i
      cases i with
      | zero => exact .cons hv hrest
      | succ i => exact .cons h (ih i)
  have hgap : ∀ n, List.Forall₂ (Value.Alike p) (List.replicate n Value.undefined)
      (List.replicate n Value.undefined) := by
    intro n
    induction n with
    | zero => exact .nil
    | succ n ih => exact .cons .undefined ih
  -- an item within the list is replaced; behind its end the gap is filled first
  unfold writeItem AllAlike
  rw [hsize]
  split
  · rw [Array.toList_setIfInBounds, Array.toList_setIfInBounds]
    exact hset h i
  · rw [Array.toList_push, Array.toList_push, Array.toList_append, Array.toList_append,
      Array.toList_replicate]
    exact List.rel_append (List.rel_append h (hgap _)) (.cons hv .nil)

theorem setMember_alike (key : String) {v v' u u' : Value} (hv : Value.Alike p v v')
    (hu : Value.Alike p u u') :
    Twins (p.Seen s s') Eq (Run.setMember v key u) (Run.setMember v' key u') := by
  cases hv with
  | undefined | null => exact .fail
  | @object o o' ho =>
    refine .change fun w w' hw => hw.step ?_ (hw.setProperty ho key hu)
    rw [(w.setProperty_quiet o key u).scopes]
  | @list l l' hl =>
    show Twins _ _ (Run.setListMember l key u) (Run.setListMember l' key u')
    unfold Run.setListMember
    cases parseIndex key with
    | none => exact .pure rfl
    | some i =>
      intro w w' hw
      dsimp only
      rw [items_size hw.toAlike hl]
      split
      · exact .failed hw
      · exact .done rfl (hw.step rfl (hw.changeItems hl fun vs vs' hvs => writeItem_alike hvs i hu))
  | _ => exact .pure rfl

/-! ### Inner scopes -/

/-- What goes alike in new scopes goes alike around them. -/
theorem inner_alike {P : World → World → Prop} {α β : Type} {A : α → β → Prop}
    {own own' : Option Value} (hown : Option.Rel (Value.Alike p) own own')
    {f : Ref .scope → Script α} {g : Ref .scope → Script β}
    (hbefore : ∀ w w', P w w' → p.Seen s s' w w')
    (hafter : ∀ w w' w₁ w₁', P w w' → World.Alike p w₁ w₁' → w.scopes.size ≤ w₁.scopes.size →
      P w₁ w₁')
    (hf : ∀ t t', Twins (p.Seen t t') A (f t) (g t')) :
    Twins P A (Run.newInnerScope s own >>= f) (Run.newInnerScope s' own' >>= g) := by
  intro w w' hP
  have hw := hbefore w w' hP
  rw [Run.newInnerScope_bind, Run.newInnerScope_bind]
  have hscope : Scope.Alike p
      { parent := some s, this := own, globals := none, heap := w.heapOf s }
      { parent := some s', this := own', globals := none, heap := w'.heapOf s' } :=
    ⟨.nil, .some hw.scope, hown, rfl, nofun, hw.heapOf hw.scope hw.there⟩
  have hadded := hw.addScope hscope fun q hq => by
    obtain rfl := Option.some.inj hq
    exact hw.there
  have hseen : p.Seen w.scopes.fresh w'.scopes.fresh _ _ :=
    ⟨hadded, hw.scopes.fresh, Nat.lt_of_lt_of_eq (Nat.lt_succ_self _) (Table.size_add _ _).symm⟩
  exact (hf _ _ _ _ hseen).mono fun _ _ hp =>
    hafter w w' _ _ hP hp.toAlike (Nat.le_of_lt hp.there)

/-- Marks are not read back. -/
theorem Starts.Seen.mark {w w' : World} (h : p.Seen s s' w w') (m m' : Moment) :
    p.Seen s s' (w.mark m) (w'.mark m') :=
  h.step rfl (h.replace ⟨rfl, rfl, rfl, rfl, rfl, .of_same rfl⟩ ⟨rfl, rfl, rfl, rfl, rfl, .of_same rfl⟩)

/-- **Worlds that are alike cannot be told apart by evaluation.** -/
theorem alike_simulation (hb : p.bindings.Constant p.left) : Simulation (Value.Alike p) p.Seen where
  constant := .constant
  isTruthy := Value.Alike.isTruthy
  typeOf := Value.Alike.typeOf
  function hv := by
    cases hv with
    | function => exact .inl ⟨_, _, rfl, rfl⟩
    | _ => exact .inr ⟨nofun, nofun⟩
  textOf := textOf_alike
  numberOf := numberOf_alike
  apply op _ _ := op.apply_alike ‹_› ‹_›
  newList := newList_alike
  newObject h := .changeGet fun _ _ hw => ⟨.object hw.objects.fresh,
    hw.step rfl (hw.addObject ⟨OrderedMap.Alike.ofList h, rfl, rfl⟩)⟩
  makeClosure := makeClosure_alike
  this := .read fun _ _ hw => hw.thisOf hw.scope
  tryLookup := tryLookup_alike hb
  assign x := assign_alike x
  declare x constant := declare_alike x constant
  getMember key := getMember_alike key
  setMember key := setMember_alike key
  mark m hw := hw.mark m m
  inner hf := inner_alike .none (fun _ _ => id)
    (fun _ _ _ _ hw halike hsize => ⟨halike, hw.scope, Nat.lt_of_lt_of_le hw.there hsize⟩) hf

/-! ### Calls -/

/-- A script call goes alike on corresponding heaps: it is refused in both worlds, or in none. -/
theorem Closure.invoke_alike (hb : p.bindings.Constant p.left) {call call' : CallSemantics}
    (hc : CallsAlike (Value.Alike p) p.Seen call call') {c : Closure} {scope' : Ref .scope}
    {own own' : Value} {arguments arguments' : Array Value} (hown : Value.Alike p own own')
    (harguments : AllAlike (Value.Alike p) arguments arguments') {w w' : World}
    (hw : p.Seen c.scope scope' w w') :
    EndAlike (fun w₁ w₁' => World.Alike p w₁ w₁' ∧ w.scopes.size ≤ w₁.scopes.size) (Value.Alike p)
      (c.invoke call own arguments w) ({ c with scope := scope' }.invoke call' own' arguments' w') := by
  have hheap := hw.heapOf hw.scope hw.there
  have hdepth := hw.depth hheap
  -- calls are nested alike on the two heaps, so the limit is reached on both or on none
  unfold Closure.invoke Run.nested
  rw [Run.bind_of_done (Run.read_apply _ _), Run.bind_of_done (Run.read_apply _ _)]
  dsimp only
  by_cases hfull : callLimit ≤ w.depth (w.heapOf c.scope)
  · have hleft : Run.enterCall (w.heapOf c.scope) w = (.failed _, w) := if_pos hfull
    have hright : Run.enterCall (w'.heapOf scope') w' = (.failed _, w') := if_pos (hdepth ▸ hfull)
    rw [Run.bind_of_failed hleft, Run.bind_of_failed hright]
    exact .failed ⟨hw.toAlike, Nat.le_refl _⟩
  · have hleft : Run.enterCall (w.heapOf c.scope) w = (.done (), _) := if_neg hfull
    have hright : Run.enterCall (w'.heapOf scope') w' = (.done (), _) := if_neg (hdepth ▸ hfull)
    rw [Run.bind_of_done hleft, Run.bind_of_done hright, hdepth]
    -- scopes are only added, so that of the closure is still there when the call is over
    have hbody : Twins (fun w₁ w₁' => World.Alike p w₁ w₁' ∧ w.scopes.size ≤ w₁.scopes.size)
        (Value.Alike p) (c.run call own arguments)
        ({ c with scope := scope' }.run call' own' arguments') := by
      refine Closure.run_twin (alike_simulation hb) hc c scope' harguments fun hf => ?_
      refine inner_alike ?_ (fun w₁ w₁' h => ⟨h.1, hw.scope, Nat.lt_of_lt_of_le hw.there h.2⟩)
        (fun _ _ _ _ h halike hsize => ⟨halike, Nat.le_trans h.2 hsize⟩) hf
      split
      · exact .none
      · exact .some hown
    exact (hbody _ _ ⟨hw.setDepth hheap _, Nat.le_refl _⟩).andAlways fun _ _ h =>
      ⟨h.1.leaveCall hheap, h.2⟩

theorem itemTexts_alike {vs vs' : List Value} (h : List.Forall₂ (Value.Alike p) vs vs') :
    Twins (p.Seen s s') Eq (Run.itemTexts vs : Script _) (Run.itemTexts vs') := by
  induction h with
  | nil => exact .pure rfl
  | @cons v v' _ _ hv _ ih =>
    have htext : Twins (p.Seen s s') Eq (Run.itemText v : Script _) (Run.itemText v') := by
      unfold Run.itemText
      rw [hv.isNullish]
      split
      · exact .pure rfl
      · exact textOf_alike hv
    exact htext.bind_eq fun _ => ih.bind_eq fun _ => .pure rfl

theorem ListMethod.joinItems_alike {l l' : Ref .list}
    (hl : Ref.Matches p.left.lists.size p.right.lists.size l l') {separator separator' : Option Value}
    (hseparator : Option.Rel (Value.Alike p) separator separator') :
    Twins (p.Seen s s') (Value.Alike p) (joinItems l separator) (joinItems l' separator') := by
  have hrest : ∀ between : String, Twins (p.Seen s s') (Value.Alike p)
      (do
        let items ← Run.read (·.items l)
        return .text (Text.joined between (← Run.itemTexts items.toList)) : Script Value)
      (do
        let items ← Run.read (·.items l')
        return .text (Text.joined between (← Run.itemTexts items.toList))) := fun _ =>
    (items_alike hl).bind fun _ _ hvs => (itemTexts_alike hvs).bind_eq fun _ => .pure .text
  cases hseparator with
  | none => exact hrest ","
  | some hv =>
    have htext : Twins (p.Seen s s') Eq (Run.textOf _ : Script _) (Run.textOf _) := textOf_alike hv
    cases hv with
    | undefined => exact hrest ","
    | _ => exact htext.bind_eq hrest

/-- Items that are alike are visited alike. -/
theorem ListMethod.visit_alike (hb : p.bindings.Constant p.left) {call call' : CallSemantics}
    (hc : CallsAlike (Value.Alike p) p.Seen call call') {callback callback' : Value}
    (hcallback : Value.Alike p callback callback') (description : String) {l l' : Ref .list}
    (hl : Ref.Matches p.left.lists.size p.right.lists.size l l') {vs vs' : List Value}
    (hvs : List.Forall₂ (Value.Alike p) vs vs') (i : Nat) {results results' : Array Value}
    (hresults : AllAlike (Value.Alike p) results results') :
    Twins (p.Seen s s') (AllAlike (Value.Alike p)) (visit call callback description l i results vs)
      (visit call' callback' description l' i results' vs') := by
  induction hvs generalizing i results results' with
  | nil => exact .pure hresults
  | cons hv _ ih =>
    refine (callValue_twin (alike_simulation hb).toExprSimulation hc description hcallback .undefined
      (.cons hv (.cons .number (.cons (.list hl) .nil)))).bind fun r r' hr => ih _ ?_
    rw [AllAlike, Array.toList_push, Array.toList_push]
    exact List.rel_append hresults (.cons hr .nil)

theorem findIdx?_alike {vs vs' : List Value} (h : List.Forall₂ (Value.Alike p) vs vs')
    {v v' : Value} (hv : Value.Alike p v v') :
    (vs.findIdx? fun u => u.strictEquals v) = vs'.findIdx? fun u => u.strictEquals v' := by
  induction h with
  | nil => rfl
  | cons hu _ ih => rw [List.findIdx?_cons, List.findIdx?_cons, hu.strictEquals hv, ih]

theorem ListMethod.invoke_alike (hb : p.bindings.Constant p.left) {call call' : CallSemantics}
    (hc : CallsAlike (Value.Alike p) p.Seen call call') (method : ListMethod) {l l' : Ref .list}
    (hl : Ref.Matches p.left.lists.size p.right.lists.size l l') {arguments arguments' : Array Value}
    (harguments : AllAlike (Value.Alike p) arguments arguments') :
    Twins (p.Seen s s') (Value.Alike p) (method.invoke call l arguments)
      (method.invoke call' l' arguments') := by
  have hfirst := rel_getD (harguments.getElem? 0) .undefined
  cases method with
  | push =>
    intro w w' hw
    show EndAlike _ _ (pushAll l arguments w) (pushAll l' arguments' w')
    have hsize : arguments.size = arguments'.size := harguments.length_eq
    unfold pushAll
    rw [items_size hw.toAlike hl, hsize]
    dsimp only
    split
    · exact .failed hw
    · refine .done .number (hw.step rfl (hw.changeItems hl fun vs vs' hvs => ?_))
      rw [AllAlike, Array.toList_append, Array.toList_append]
      exact List.rel_append hvs harguments
  | join =>
    exact joinItems_alike hl (harguments.getElem? 0)
  | map =>
    refine (items_alike hl).bind fun vs vs' hvs => ?_
    refine (visit_alike hb hc hfirst _ hl hvs 0 .nil).bind fun _ _ hresults => ?_
    exact (newList_alike hresults).bind fun _ _ h => .pure h
  | forEach =>
    refine (items_alike hl).bind fun vs vs' hvs => ?_
    exact (visit_alike hb hc hfirst _ hl hvs 0 .nil).bind fun _ _ _ => .pure .undefined
  | indexOf =>
    refine (items_alike hl).bind fun vs vs' hvs => ?_
    rw [findIdx?_alike hvs hfirst]
    split <;> exact .pure .number

theorem TextMethod.invoke_alike (method : TextMethod) (t : String)
    {arguments arguments' : Array Value} (harguments : AllAlike (Value.Alike p) arguments arguments') :
    Twins (p.Seen s s') (Value.Alike p) (method.invoke t arguments) (method.invoke t arguments') := by
  cases method with
  | indexOf =>
    have hrel := harguments.getElem? 0
    unfold invoke
    dsimp only
    generalize arguments[0]? = x at hrel ⊢
    generalize arguments'[0]? = x' at hrel ⊢
    cases hrel with
    | none => exact .pure .number
    | some hv => exact (textOf_alike hv).bind_eq fun _ => .pure .number
  | toUpperCase | toLowerCase | trim => exact .pure .text

/-- What evaluation can call goes alike; the scope of a closure has to exist. -/
theorem Callable.invoke_alike (hb : p.bindings.Constant p.left) {m m' : Machine}
    (hc : CallsAlike (Value.Alike p) p.Seen m.call m'.call) {f f' : Callable}
    (hf : Callable.Alike p f f') {own own' : Value} {arguments arguments' : Array Value}
    (hown : Value.Alike p own own') (harguments : AllAlike (Value.Alike p) arguments arguments')
    {w w' : World} (hw : p.Seen s s' w w') (hthere : ∀ c, f = .closure c → c.scope.row < w.scopes.size) :
    EndAlike (p.Seen s s') (Value.Alike p) (f.invoke m own arguments w)
      (f'.invoke m' own' arguments' w') := by
  cases hf with
  | @closure c scope' hscope =>
    exact (c.invoke_alike hb hc hown harguments ⟨hw.toAlike, hscope, hthere c rfl⟩).mono
      fun _ _ h => ⟨h.1, hw.scope, Nat.lt_of_lt_of_le hw.there h.2⟩
  | @listMethod method l l' hl => exact method.invoke_alike hb hc hl harguments w w' hw
  | @textMethod method t => exact method.invoke_alike t harguments w w' hw

/-- **Calls go alike,** whatever fuel they have. -/
theorem Machine.calls_alike (hb : p.bindings.Constant p.left) (n : Nat) :
    CallsAlike (Value.Alike p) p.Seen (ofFuel n).call (ofFuel n).call := by
  induction n with
  | zero => exact fun _ _ _ _ _ _ => .exhausted
  | succ n ih =>
    intro s s' f f' own own' arguments arguments' hf hown harguments w w' hw
    have hmatches : Ref.Matches p.left.functions.size p.right.functions.size f f' := by
      cases hf with
      | function hf => exact hf
    have hclosures := fun c => hw.closures f c (hmatches.le_left)
    have hget := hw.functions.rows hmatches
    rw [ofFuel_call_succ, ofFuel_call_succ]
    unfold invoke
    rw [Run.bind_of_done (Run.read_apply _ _), Run.bind_of_done (Run.read_apply _ _)]
    generalize w.functions.get? f = x at hget hclosures ⊢
    generalize w'.functions.get? f' = x' at hget ⊢
    -- what the function does is done by the machine below, of which `ih` speaks
    cases hget with
    | none => exact .done .undefined hw
    | @some x x' hx =>
      dsimp only
      unfold Run.mark
      rw [Run.bind_of_done (Run.change_apply _ _), Run.bind_of_done (Run.change_apply _ _)]
      have hmarked := hw.mark (.call (.entered x.revisits)) (.call (.entered x'.revisits))
      have hinvoke := Callable.invoke_alike hb ih hx hown harguments hmarked fun c hc =>
        hclosures c (congrArg some hc)
      exact hinvoke.andAlways fun _ _ h => h.mark _ _

/-! ### Programs -/

/-- A root scope is made alike on corresponding heaps. -/
theorem root_alike {α β : Type} {A : α → β → Prop} {h h' : Ref .heap} (hh : p.Heaps h h')
    {f : Ref .scope → Script α} {g : Ref .scope → Script β}
    (hf : ∀ t t', Twins (p.Seen t t') A (f t) (g t')) :
    Twins (World.Alike p) A (Run.newRootScope p.bindings h >>= f)
      (Run.newRootScope p.bindings h' >>= g) := by
  intro w w' hw
  have hroot : Scope.Alike p (.root p.bindings h) (.root p.bindings h') :=
    ⟨.nil, .none, .some .undefined, rfl, fun _ hb => (Option.some.inj hb).symm, hh⟩
  have hadded := hw.addScope hroot nofun
  have hseen : p.Seen w.scopes.fresh w'.scopes.fresh _ _ :=
    ⟨hadded, hw.scopes.fresh, Nat.lt_of_lt_of_eq (Nat.lt_succ_self _) (Table.size_add _ _).symm⟩
  exact (hf _ _ _ _ hseen).mono fun _ _ hp => hp.toAlike

/-- **Programs go alike** against the bindings. -/
theorem Program.evaluate_alike (hb : p.bindings.Constant p.left) {call call' : CallSemantics}
    (hc : CallsAlike (Value.Alike p) p.Seen call call') (q : Program) :
    Twins (World.Alike p) (Value.Alike p) (q.evaluate call p.bindings)
      (q.evaluate call' p.bindings) := by
  have hrun := Program.run_twin (alike_simulation hb) hc q
  unfold Program.evaluate
  split
  · next h hshared => exact root_alike (.inl ⟨hshared, rfl⟩) hrun
  -- each evaluation makes a heap of its own, and releases it whatever came of the run
  · next hnone =>
    have hnew : Twins (World.Alike p) p.Heaps (Run.newHeap : Script _) Run.newHeap :=
      .changeGet fun _ _ hw => (hw.addHeap hnone).symm
    refine hnew.bind fun h h' hh => root_alike hh fun t t' => (hrun t t').andAlways fun w w' hw => ?_
    exact hw.step (w.release_samePlaces h).size (hw.release hnone hh)

/-- **A world is like another as far as a new evaluation goes,** if lazy cells were at most read in
between, and calls are nested alike on the heap that the bindings name. -/
theorem World.Alike.start (hcells : p.left.CellsSettle p.right)
    (hheap : ∀ h, p.bindings.heap = some h → h.row < p.left.heaps.size ∧
      h.row < p.right.heaps.size ∧ p.left.depth h = p.right.depth h) :
    World.Alike p p.left p.right where
  lists := .start
  objects := .start
  functions := .start
  scopes := .start
  heaps _ := .start
  shared h hshared := by
    obtain ⟨hlt, hlt', hdepth⟩ := hheap h hshared
    obtain ⟨x, hx⟩ := Table.exists_of_lt_size hlt
    obtain ⟨x', hx'⟩ := Table.exists_of_lt_size hlt'
    unfold World.depth at hdepth
    rw [hx, hx'] at hdepth
    exact ⟨x, x', hx, hx', hdepth⟩
  cells := .of_same rfl
  cells' := hcells
  parents s x q hs hx _ := absurd (lt_size_of_get? hx) (Nat.not_lt_of_le hs)
  closures f c hf hget := absurd (lt_size_of_get? hget) (Nat.not_lt_of_le hf)

end

end ScriptModules
