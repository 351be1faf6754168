import ScriptModules.Proofs.Variables

/-!
# Compound assignment

`x += e` evaluates `e` first and reads `x` then; `x = x + e` reads `x` first. The two come to the same
where evaluating `e` leaves what `x` means as it was, or does not come to a value
(`Expr.compound_agrees`). That can be seen from the effects of `e`, whatever it calls: nothing is stored
under the name. Or it can be read off the expression, if that calls nothing and does not assign to the
variable itself (`Expr.Spares`).

An assignment to `x` in `e` tells the two apart (`Expr.compound_differs`).
-/

namespace ScriptModules

open Run

/-- The operator that a compound assignment abbreviates. -/
def AssignOp.binary? : AssignOp → Option BinaryOp
  | .set => none
  | .add => some .add
  | .subtract => some .subtract

/-- **The compound form and the plain form come to the same** in a scope and a world: the same value or
error, and the same world. -/
def Expr.CompoundAgrees (call : CallSemantics) (s : Ref .scope) (x : String) (e : Expr)
    (w : World) : Prop :=
  ∀ op binary, AssignOp.binary? op = some binary →
    (Expr.assign op (.name x) e).eval call s w =
      (Expr.assign .set (.name x) (.binary binary (.name x) e)).eval call s w

/-! ### Reading before and after -/

section

variable {call : CallSemantics} {s : Ref .scope} {x : String} {e : Expr} {w w' : World}

theorem AssignOp.combine_eq {op : AssignOp} {binary : BinaryOp} (h : op.binary? = some binary)
    (current : Script Value) (v : Value) :
    op.combine current v = current >>= fun a => binary.apply a v := by
  cases op <;> cases h <;> rfl

/-- Where the right side comes to a value, and reading the variable gives the same before and behind. -/
theorem Expr.compoundAgrees_of_lookup {a b : Value} (hbefore : Run.lookup s x w = (.done a, w))
    (heval : e.eval call s w = (.done b, w')) (hbehind : Run.lookup s x w' = (.done a, w')) :
    Expr.CompoundAgrees call s x e w := by
  intro op binary hop
  have hsum : (Expr.binary binary (.name x) e).eval call s w =
      (binary.apply a b : Script Value) w' :=
    (Run.bind_of_done hbefore).trans (Run.bind_of_done heval)
  have hcombined : op.combine (Run.lookup s x) b w' = (binary.apply a b : Script Value) w' := by
    rw [AssignOp.combine_eq hop]
    exact Run.bind_of_done hbehind
  -- both are an assignment of what the operator comes to in the world behind the right side
  have hplain : (Expr.assign .set (.name x) (.binary binary (.name x) e)).eval call s w =
      (binary.apply a b >>= fun v => Run.assign s x v >>= fun _ => pure v) w' := by
    change (Expr.eval call s (.binary binary (.name x) e) >>= _) w = _
    rw [Run.bind_apply, Run.bind_apply, hsum]
    rfl
  have hcompound : (Expr.assign op (.name x) e).eval call s w =
      (binary.apply a b >>= fun v => Run.assign s x v >>= fun _ => pure v) w' := by
    refine (Run.bind_of_done heval).trans ?_
    rw [Run.bind_apply, Run.bind_apply, hcombined]
  exact hcompound.trans hplain.symm

/-- Where the right side comes to no value, the variable is not stored. -/
theorem Expr.compoundAgrees_of_no_value {a : Value} (hbefore : Run.lookup s x w = (.done a, w))
    (hnone : ∀ b w', e.eval call s w ≠ (.done b, w')) : Expr.CompoundAgrees call s x e w := by
  intro op binary _
  have hsum : (Expr.binary binary (.name x) e).eval call s w = (e.eval call s >>= binary.apply a) w :=
    Run.bind_of_done hbefore
  change (e.eval call s >>= _) w = (Expr.eval call s (.binary binary (.name x) e) >>= _) w
  rw [Run.bind_apply, Run.bind_apply, hsum, Run.bind_apply]
  rcases he : e.eval call s w with ⟨b | err | _, w'⟩
  · exact absurd he (hnone b w')
  · rfl
  · rfl

/-- Where the variable has no value, the plain form has no effect. -/
theorem Expr.compoundAgrees_of_undefined {err : ScriptError} {b : Value}
    (hbefore : Run.lookup s x w = (.failed err, w)) (heval : e.eval call s w = (.done b, w)) :
    Expr.CompoundAgrees call s x e w := by
  intro op binary hop
  have hsum : (Expr.binary binary (.name x) e).eval call s w = (.failed err, w) :=
    Run.bind_of_failed hbefore
  have hcombined : op.combine (Run.lookup s x) b w = (.failed err, w) := by
    rw [AssignOp.combine_eq hop]
    exact Run.bind_of_failed hbefore
  exact ((Run.bind_of_done heval).trans (Run.bind_of_failed hcombined)).trans
    (Run.bind_of_failed hsum).symm

end

/-! ### What leaves a variable as it was -/

namespace World

variable {w w' : World} {s : Ref .scope} {x : String} {d : Ref .scope × Variable}

/-- A declaration is found again if every scope lies where it lay and has the variable that it had. -/
theorem declaration?_kept (hkept : ∀ t y, w.scopes.get? t = some y →
      ∃ z, w'.scopes.get? t = some z ∧ z.parent = y.parent ∧ z.locals.get? x = y.locals.get? x)
    (hd : w.declaration? s x = some d) : w'.declaration? s x = some d := by
  rw [declaration?, scopeChain] at hd ⊢
  -- along the chain, by the fuel of the walk: the first scope with the variable is the same
  generalize s.row + 1 = n at hd ⊢
  induction n generalizing s with
  | zero => cases hd
  | succ n ih =>
    rw [chainFrom] at hd ⊢
    cases hs : w.scopes.get? s with
    | none =>
      rw [hs] at hd
      cases hd
    | some y =>
      obtain ⟨z, hz, hparent, hlocal⟩ := hkept s y hs
      rw [hs] at hd
      simp only [hz, hparent, hlocal, List.findSome?_cons] at hd ⊢
      cases hy : y.locals.get? x with
      | some v =>
        simp only [hy, Option.map_some] at hd ⊢
        exact hd
      | none =>
        simp only [hy, Option.map_none] at hd ⊢
        cases hp : y.parent with
        | none =>
          rw [hp] at hd
          cases hd
        | some p =>
          rw [hp] at hd
          exact ih hd

/-- Storing another variable leaves a declaration as it was. -/
theorem declaration?_setVariable {r : Ref .scope} {other : String} {u : Variable} (hne : other ≠ x)
    (hd : w.declaration? s x = some d) : (w.setVariable r other u).declaration? s x = some d := by
  refine declaration?_kept (fun t y hy => ?_) hd
  rw [setVariable, Table.get?_update, hy]
  split
  · exact ⟨_, rfl, rfl, (OrderedMap.get?_insert _ _ _ _).trans (if_neg hne)⟩
  · exact ⟨y, rfl, rfl, rfl⟩

/-- **On a passage that stores nothing under a name, what is declared stays as it was.** -/
theorem Passage.declaration?_kept {es : List Effect} (h : w.Passage es w')
    (hnone : ∀ t v, .store t x v ∉ es) (hd : w.declaration? s x = some d) :
    w'.declaration? s x = some d := by
  refine World.declaration?_kept (fun t y hy => ?_) hd
  obtain ⟨z, hz, hgrows⟩ := h.scope_kept hy
  refine ⟨z, hz, (Prod.mk.inj hgrows.place).1, ?_⟩
  cases hv : z.locals.get? x with
  | some v => exact ((hgrows.source x v hv).resolve_right (hnone t v)).symm
  | none =>
    by_contra hne
    have hsome := hgrows.kept x (Option.isSome_iff_ne_none.2 (Ne.symm hne))
    rw [hv] at hsome
    cases hsome

end World

mutual

/-- **The expression calls nothing and does not assign to the variable,** but perhaps in functions
that it makes. -/
def Expr.Spares (x : String) : Expr → Prop
  | .literal _ | .name _ | .this | .function .. | .arrow .. => True
  | .list items => Expr.AllSpare x items
  | .object properties => Property.AllSpare x properties
  | .unary _ e => e.Spares x
  | .binary _ l r => l.Spares x ∧ r.Spares x
  | .logical _ l r => l.Spares x ∧ r.Spares x
  | .conditional test consequent alternate =>
    test.Spares x ∧ consequent.Spares x ∧ alternate.Spares x
  | .assign _ (.name y) e => y ≠ x ∧ e.Spares x
  | .assign _ (.member o _) e => o.Spares x ∧ e.Spares x
  | .assign _ (.index o k) e => o.Spares x ∧ k.Spares x ∧ e.Spares x
  | .member o _ => o.Spares x
  | .index o k => o.Spares x ∧ k.Spares x
  | .call .. => False

def Expr.AllSpare (x : String) : List Expr → Prop
  | [] => True
  | e :: rest => e.Spares x ∧ Expr.AllSpare x rest

def Property.AllSpare (x : String) : List Property → Prop
  | [] => True
  | .mk _ e :: rest => e.Spares x ∧ Property.AllSpare x rest

end

section

variable {x : String} {s t : Ref .scope} {d : Ref .scope × Variable} {α : Type}

/-- The declaration is found from the scope. -/
abbrev World.Declares (s : Ref .scope) (x : String) (d : Ref .scope × Variable) (w : World) : Prop :=
  w.declaration? s x = some d

theorem declares_of_quiet {y : Script α} (hy : y.Within World.Quiet) :
    Keeps (World.Declares s x d) (fun _ => True) y :=
  hy.leads (fun _ _ hw hq => (World.declaration?_of_scopes_eq hq.scopes s x).trans hw) fun _ _ =>
    trivial

theorem declares_of_makeClosure (t : Ref .scope) (name : String) (params : List String) (body : Body)
    (isArrow : Bool) : Keeps (World.Declares s x d) (fun _ => True)
      (makeClosure t name params body isArrow) :=
  have kept : ∀ (w : World) (f : Callable), World.Declares s x d w →
      World.Declares s x d { w with functions := w.functions.add f } := fun w f hw => by
    have hscopes : { w with functions := w.functions.add f }.scopes = w.scopes := rfl
    exact (World.declaration?_of_scopes_eq hscopes s x).trans hw
  Keeps.bind (Leads.changeGet fun w => kept w _) fun _ => Keeps.pure

theorem declares_of_assign {other : String} (hne : other ≠ x) (t : Ref .scope) (v : Value) :
    Keeps (World.Declares s x d) (fun _ => True) (Run.assign t other v) := by
  intro w hw
  rcases Run.assign_eq t other v w with ⟨hrun, -⟩ | ⟨_, _, _, _, hfails⟩
  · rw [hrun]
    exact World.declaration?_setVariable hne hw
  · rw [hfails]
    exact hw

variable (call : CallSemantics)

mutual

/-- **An expression that spares a variable leaves it as it was,** seen from whatever scope. -/
theorem Expr.eval_spares (t : Ref .scope) : ∀ e : Expr, e.Spares x →
    Keeps (World.Declares s x d) (fun _ => True) (e.eval call t)
  | .literal _, _ => Keeps.pure
  | .name y, _ => declares_of_quiet (Run.lookup_quiet t y)
  | .this, _ => Keeps.read
  | .list items, h => (Expr.evalAll_spares t items h).bind fun _ =>
    declares_of_quiet (.bind (Run.newList_quiet _) fun _ => .pure)
  | .object properties, h => (Property.evalAll_spares t properties h).bind fun _ =>
    declares_of_quiet (.bind (Run.newObject_quiet _) fun _ => .pure)
  | .function .., _ => declares_of_makeClosure t _ _ _ _
  | .arrow .., _ => declares_of_makeClosure t _ _ _ _
  | .unary .not e, h => (Expr.eval_spares t e h).bind fun _ => Keeps.pure
  | .unary .minus e, h => (Expr.eval_spares t e h).bind fun v =>
    declares_of_quiet (.bind (Run.numberOf_quiet v) fun _ => .pure)
  | .unary .typeOf e, h => by
    have h : e.Spares x := h
    cases e with
    | name y => exact declares_of_quiet (.bind (Run.tryLookup_quiet t y) fun _ => .pure)
    | _ => exact (Expr.eval_spares t _ h).bind fun _ => Keeps.pure
  | .binary op l r, ⟨hl, hr⟩ => (Expr.eval_spares t l hl).bind fun a =>
    (Expr.eval_spares t r hr).bind fun b => declares_of_quiet (op.apply_within a b)
  | .logical .and l r, ⟨hl, hr⟩ => (Expr.eval_spares t l hl).bind fun a => by
    split
    · exact Expr.eval_spares t r hr
    · exact Keeps.pure
  | .logical .or l r, ⟨hl, hr⟩ => (Expr.eval_spares t l hl).bind fun a => by
    split
    · exact Keeps.pure
    · exact Expr.eval_spares t r hr
  | .conditional test consequent alternate, ⟨ht, hc, ha⟩ => (Expr.eval_spares t test ht).bind fun v => by
    split
    · exact Expr.eval_spares t consequent hc
    · exact Expr.eval_spares t alternate ha
  | .assign op (.name y) e, ⟨hne, he⟩ => (Expr.eval_spares t e he).bind fun v =>
    (declares_of_quiet (op.combine_within v (Run.lookup_quiet t y))).bind fun v =>
      (declares_of_assign hne t v).bind fun _ => Keeps.pure
  | .assign op (.member o key) e, ⟨ho, he⟩ => (Expr.eval_spares t o ho).bind fun target =>
    (Expr.eval_spares t e he).bind fun v => declares_of_quiet
      (.bind (op.combine_within v (Run.getMember_quiet target key)) fun _ =>
        .bind (Run.setMember_quiet target key _) fun _ => .pure)
  | .assign op (.index o k) e, ⟨ho, hk, he⟩ => (Expr.eval_spares t o ho).bind fun target =>
    (Expr.eval_spares t k hk).bind fun i => (declares_of_quiet (Run.textOf_quiet i)).bind fun key =>
      (Expr.eval_spares t e he).bind fun v => declares_of_quiet
        (.bind (op.combine_within v (Run.getMember_quiet target key)) fun _ =>
          .bind (Run.setMember_quiet target key _) fun _ => .pure)
  | .member o key, h => (Expr.eval_spares t o h).bind fun v =>
    declares_of_quiet (Run.getMember_quiet v key)
  | .index o k, ⟨ho, hk⟩ => (Expr.eval_spares t o ho).bind fun v =>
    (Expr.eval_spares t k hk).bind fun i =>
      declares_of_quiet (.bind (Run.textOf_quiet i) fun key => Run.getMember_quiet v key)
  | .call .., h => h.elim

theorem Expr.evalAll_spares (t : Ref .scope) : ∀ es : List Expr, Expr.AllSpare x es →
    Keeps (World.Declares s x d) (fun _ => True) (Expr.evalAll call t es)
  | [], _ => Keeps.pure
  | e :: rest, ⟨he, hrest⟩ => (Expr.eval_spares t e he).bind fun _ =>
    (Expr.evalAll_spares t rest hrest).bind fun _ => Keeps.pure

theorem Property.evalAll_spares (t : Ref .scope) : ∀ ps : List Property, Property.AllSpare x ps →
    Keeps (World.Declares s x d) (fun _ => True) (Property.evalAll call t ps)
  | [], _ => Keeps.pure
  | .mk _ e :: rest, ⟨he, hrest⟩ => (Expr.eval_spares t e he).bind fun _ =>
    (Property.evalAll_spares t rest hrest).bind fun _ => Keeps.pure

end

end

/-- **When a compound assignment is what it abbreviates.** It evaluates its right side and then does
what the plain form does with the value, so the two forms agree if what the variable means before the
right side is evaluated is what it means behind it, or if the right side comes to no value. A variable
without a value makes both fail, and they agree if the right side has no effect. A variable that is
declared means the same behind an expression that neither calls anything nor assigns to it, and behind
any expression, whatever it calls, on whose passage nothing is stored under the name. -/
theorem Expr.compound_agrees (n : Nat) (s : Ref .scope) (x : String) (e : Expr) (w : World) :
    let call := (Machine.ofFuel n).call
    (∀ op binary b w', AssignOp.binary? op = some binary → e.eval call s w = (.done b, w') →
      (Expr.assign op (.name x) e).eval call s w =
        (Run.lookup s x >>= fun a => binary.apply a b >>= fun v => Run.assign s x v >>= fun _ =>
          pure v) w') ∧
    (∀ a, Run.lookup s x w = (.done a, w) →
      (∀ b w', e.eval call s w = (.done b, w') → Run.lookup s x w' = (.done a, w')) →
      Expr.CompoundAgrees call s x e w) ∧
    (∀ err b, Run.lookup s x w = (.failed err, w) → e.eval call s w = (.done b, w) →
      Expr.CompoundAgrees call s x e w) ∧
    (∃ es, w.Passage es (e.eval call s w).2) ∧
    ∀ d, w.declaration? s x = some d →
      (e.Spares x → Expr.CompoundAgrees call s x e w) ∧
      ∀ es, w.Passage es (e.eval call s w).2 → (∀ t v, .store t x v ∉ es) →
        Expr.CompoundAgrees call s x e w := by
  intro call
  have agrees : ∀ a, Run.lookup s x w = (.done a, w) →
      (∀ b w', e.eval call s w = (.done b, w') → Run.lookup s x w' = (.done a, w')) →
      Expr.CompoundAgrees call s x e w := by
    intro a hbefore hbehind
    by_cases hvalue : ∃ b w', e.eval call s w = (.done b, w')
    · obtain ⟨b, w', heval⟩ := hvalue
      exact Expr.compoundAgrees_of_lookup hbefore heval (hbehind b w' heval)
    · exact Expr.compoundAgrees_of_no_value hbefore fun b w' heval => hvalue ⟨b, w', heval⟩
  refine ⟨fun op binary b w' hop heval => ?_, agrees, fun _ _ => Expr.compoundAgrees_of_undefined,
    Expr.eval_passes n s e w, fun d hd => ?_⟩
  · refine (Run.bind_of_done heval).trans ?_
    rw [AssignOp.combine_eq hop, Run.bind_apply, Run.bind_apply, Run.bind_apply]
    rcases Run.lookup s x w' with ⟨a | err | _, w₁⟩ <;> rfl
  · -- the declaration is found again behind the expression, and so is its value
    obtain ⟨r, v⟩ := d
    have kept : (∀ b w', e.eval call s w = (.done b, w') → w'.declaration? s x = some (r, v)) →
        Expr.CompoundAgrees call s x e w := fun hkept =>
      agrees v.value (World.lookup_of_declaration? hd) fun b w' heval =>
        World.lookup_of_declaration? (hkept b w' heval)
    refine ⟨fun hspares => kept fun b w' heval => ?_, fun es hpassage hnone => kept fun b w' heval => ?_⟩
    · exact (Expr.eval_spares call s e hspares).of_eq (r := .ok b) hd heval
    · rw [heval] at hpassage
      exact hpassage.declaration?_kept hnone hd

/-- A root scope in which `x` is a text. -/
def World.withText : World :=
  (World.empty.addHeap.addScope (.root {} ⟨0⟩)).setVariable ⟨0⟩ "x" ⟨.text "a", false⟩

namespace Expr

/-- In `x += (y = x)` the right side has an effect, but not on `x`. -/
theorem compound_agrees_beside :
    World.withText.declaration? ⟨0⟩ "x" = some (⟨0⟩, ⟨.text "a", false⟩) ∧
    (assign .set (.name "y") (.name "x")).Spares "x" ∧
    CompoundAgrees (Machine.ofFuel 0).call ⟨0⟩ "x" (.assign .set (.name "y") (.name "x"))
      World.withText := by
  have hspares : (assign .set (.name "y") (.name "x")).Spares "x" := ⟨by decide, trivial⟩
  obtain ⟨-, -, -, -, hdeclared⟩ :=
    compound_agrees 0 ⟨0⟩ "x" (.assign .set (.name "y") (.name "x")) World.withText
  exact ⟨rfl, hspares, (hdeclared _ rfl).1 hspares⟩

/-- **If the right side assigns to the variable, the two forms differ:** the compound form finds what
was assigned, the plain form what was there before. -/
theorem compound_differs :
    ¬ CompoundAgrees (Machine.ofFuel 0).call ⟨0⟩ "x" (.assign .set (.name "x") (.literal (.text "b")))
      World.withText ∧
    (Engine.compiling.evaluate (Machine.ofFuel 1).call "test.js"
      "var x = 'a'; x += (x = 'b'); x" {} .empty).1.value?.bind Value.asText? = some "bb" ∧
    (Engine.compiling.evaluate (Machine.ofFuel 1).call "test.js"
      "var x = 'a'; x = x + (x = 'b'); x" {} .empty).1.value?.bind Value.asText? = some "ab" := by
  refine ⟨fun h => ?_, by decide +kernel, by decide +kernel⟩
  have htexts := congrArg (fun r => r.1.value?.bind Value.asText?) (h .add .add rfl)
  exact absurd htexts (by decide +kernel)

end Expr

end ScriptModules
