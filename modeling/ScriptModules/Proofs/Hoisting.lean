import ScriptModules.Proofs.Passages

/-!
# Declared functions

A list of statements runs in a scope that was made for it, be it a program, a block or the body of a
function. What the list declares as functions is bound in that scope before its first statement runs
(`Stmt.hoist_binds`). Nothing takes a variable out of a scope while code runs in it
(`World.Passage.local_kept`). So when the list comes to one of these declarations, its name means that
function, or a later one of the same name, or what was stored under the name since; and it goes on to
mean something (`Stmt.function_bound`).

A declaration that is a branch of an `if` stands in no list. Nothing binds it, and nothing happens
where it is executed (`Stmt.branch_function_undefined`).
-/

namespace ScriptModules

/-! ### Variables of a scope -/

namespace World

/-- The variable of a name in the scope itself. -/
def local? (w : World) (s : Ref .scope) (name : String) : Option Variable :=
  (w.scopes.get? s).bind fun x => x.locals.get? name

variable {w w' : World} {s r : Ref .scope} {name : String} {x v : Variable} {es : List Effect}

/-- A scope that is made is there. -/
theorem fresh_lt_addScope (w : World) (x : Scope) :
    w.scopes.fresh.row < (w.addScope x).scopes.size :=
  Nat.lt_of_lt_of_eq (Nat.lt_succ_self _) (Table.size_add w.scopes x).symm

theorem local?_setVariable_self (hs : s.row < w.scopes.size) :
    (w.setVariable s name x).local? s name = some x := by
  obtain ⟨y, hy⟩ := Table.exists_of_lt_size hs
  rw [local?, setVariable, Table.get?_update, if_pos rfl, hy]
  exact (OrderedMap.get?_insert _ _ _ _).trans (if_pos rfl)

/-- A variable is stored under its own name, in its own scope. -/
theorem local?_setVariable_of_ne {other : String} (h : s = r → name ≠ other) :
    (w.setVariable s name x).local? r other = w.local? r other := by
  rw [local?, setVariable, Table.get?_update, local?]
  split
  · next heq =>
    cases w.scopes.get? r with
    | none => rfl
    | some y => exact (OrderedMap.get?_insert _ _ _ _).trans (if_neg (h heq))
  · rfl

/-- A variable of the scope itself is nearest. -/
theorem declaration?_of_local? (h : w.local? s name = some v) :
    w.declaration? s name = some (s, v) := by
  obtain ⟨y, hy, hv⟩ := Option.bind_eq_some_iff.1 h
  simp only [declaration?, scopeChain, chainFrom, hy, List.findSome?_cons, hv, Option.map_some]

/-- What is declared is looked up and changes nothing. -/
theorem lookup_of_declaration? (h : w.declaration? s name = some (r, v)) :
    Run.lookup s name w = (.done v.value, w) := by
  have hfound : (Run.tryLookup s name : Script _) w = (.done (some v.value), w) := by
    unfold Run.tryLookup
    rw [h]
  exact Run.bind_of_done hfound

theorem lookup_of_local? (h : w.local? s name = some v) :
    Run.lookup s name w = (.done v.value, w) :=
  lookup_of_declaration? (declaration?_of_local? h)

end World

/-- **A variable of a scope that is there stays one,** with its value or one that was stored since. -/
theorem World.Passage.local_kept {w w' : World} {es : List Effect} (h : w.Passage es w')
    {s : Ref .scope} {name : String} {x : Variable} (hx : w.local? s name = some x) :
    ∃ x', w'.local? s name = some x' ∧ (x' = x ∨ .store s name x' ∈ es) := by
  obtain ⟨y, hy, hlocal⟩ := Option.bind_eq_some_iff.1 hx
  obtain ⟨y', hy', hgrows⟩ := h.scope_kept hy
  obtain ⟨x', hx'⟩ := Option.isSome_iff_exists.1 (hgrows.kept name (by rw [hlocal]; rfl))
  refine ⟨x', by rw [World.local?, hy']; exact hx', (hgrows.source name x' hx').imp_left ?_⟩
  exact fun hsame => Option.some.inj (hsame.symm.trans hlocal)

/-! ### What a list declares -/

namespace Stmt

/-- The last function of a name that a list of statements declares itself: its parameters and its
body. -/
def lastFunction? (name : String) : List Stmt → Option (List String × List Stmt)
  | [] => none
  | .function f params body :: rest =>
    (lastFunction? name rest).or (if f = name then some (params, body) else none)
  | _ :: rest => lastFunction? name rest

variable {name : String} {params : List String} {body : List Stmt}

/-- What is last in the rest of a list is last in the list. -/
theorem lastFunction?_cons (stmt : Stmt) {rest : List Stmt} {d : List String × List Stmt}
    (h : lastFunction? name rest = some d) : lastFunction? name (stmt :: rest) = some d := by
  cases stmt with
  | function f params body => rw [lastFunction?, h, Option.some_or]
  | _ => exact h

theorem lastFunction?_append (before : List Stmt) {rest : List Stmt} {d : List String × List Stmt}
    (h : lastFunction? name rest = some d) : lastFunction? name (before ++ rest) = some d := by
  induction before with
  | nil => exact h
  | cons stmt before ih => exact lastFunction?_cons stmt ih

theorem mem_of_lastFunction? {ss : List Stmt} (h : lastFunction? name ss = some (params, body)) :
    .function name params body ∈ ss := by
  induction ss with
  | nil => cases h
  | cons stmt rest ih =>
    cases stmt with
    | function f ps b =>
      rw [lastFunction?] at h
      cases hrest : lastFunction? name rest with
      | some d =>
        rw [hrest, Option.some_or] at h
        exact List.mem_cons_of_mem _ (ih (hrest.trans h))
      | none =>
        rw [hrest, Option.none_or] at h
        split at h
        · next hname =>
          obtain ⟨rfl, rfl⟩ := Prod.mk.inj (Option.some.inj h)
          exact hname ▸ List.mem_cons_self
        · cases h
    | _ => exact List.mem_cons_of_mem _ (ih h)

/-- A list that declares a function declares a last one of that name. -/
theorem exists_lastFunction? (name : String) (params : List String) (body rest : List Stmt) :
    ∃ d, lastFunction? name (.function name params body :: rest) = some d := by
  rw [lastFunction?, if_pos rfl]
  cases lastFunction? name rest with
  | some d => exact ⟨d, Option.some_or⟩
  | none => exact ⟨_, Option.none_or⟩

/-- **The functions of a list are bound** in the scope in which it is to run: each name that the list
declares means the last function of that name. Other names mean what they meant. -/
theorem hoist_binds {s : Ref .scope} (ss : List Stmt) {w : World} (hs : s.row < w.scopes.size) :
    ∃ w', hoist s ss w = (.done (), w') ∧
      (∀ f x, w.functions.get? f = some x → w'.functions.get? f = some x) ∧
      (∀ name params body, lastFunction? name ss = some (params, body) →
        ∃ f, w'.local? s name = some ⟨.function f, false⟩ ∧
          w'.functions.get? f = some (.closure ⟨name, params, .block body, false, s⟩)) ∧
      ∀ name, lastFunction? name ss = none → w'.local? s name = w.local? s name := by
  induction ss generalizing w with
  | nil => exact ⟨w, rfl, fun _ _ => id, nofun, fun _ _ => rfl⟩
  | cons stmt rest ih =>
    cases stmt with
    | function g ps b =>
      -- a function is made and declared, and then the rest of the list is gone through
      let made : World := { w with
        functions := w.functions.add (.closure ⟨g, ps, .block b, false, s⟩) }
      let x : Variable := ⟨.function w.functions.fresh, false⟩
      have hmade : s.row < (made.setVariable s g x).scopes.size :=
        Nat.lt_of_lt_of_eq hs (Table.size_update ..).symm
      have hdeclared : (made.setVariable s g x).local? s g = some x :=
        World.local?_setVariable_self hs
      obtain ⟨w', hrun, hkept, hbound, hothers⟩ := ih hmade
      refine ⟨w', hrun, fun f x hf => hkept f x (Table.get?_add_of_get?_eq_some _ hf),
        fun name params body hlast => ?_, fun name hnone => ?_⟩
      · rw [lastFunction?] at hlast
        cases hrest : lastFunction? name rest with
        | some d =>
          rw [hrest, Option.some_or] at hlast
          exact hbound name params body (hrest.trans hlast)
        | none =>
          -- no later declaration of the list takes the place of this one
          rw [hrest, Option.none_or] at hlast
          split at hlast
          · next hname =>
            obtain ⟨rfl, rfl⟩ := Prod.mk.inj (Option.some.inj hlast)
            subst hname
            exact ⟨w.functions.fresh, (hothers g hrest).trans hdeclared,
              hkept _ _ (Table.get?_add_fresh ..)⟩
          · cases hlast
      · rw [lastFunction?, Option.or_eq_none_iff] at hnone
        have hne : g ≠ name := fun hname => by
          rw [if_pos hname] at hnone
          cases hnone.2
        exact (hothers name hnone.1).trans (World.local?_setVariable_of_ne fun _ => hne)
    | _ => exact ih hs

/-! ### Running a list -/

section

variable {call : CallSemantics} {s : Ref .scope} {before rest : List Stmt} {w w' : World}

/-- What has ended without returning is followed by the rest. -/
theorem execAll_append (h : execAll call s before w = (.done .normal, w')) :
    execAll call s (before ++ rest) w = execAll call s rest w' := by
  induction before generalizing w with
  | nil =>
    cases h
    rfl
  | cons stmt before ih =>
    obtain ⟨c, w₁, hexec, hrest⟩ := Run.exists_of_bind_done h
    cases c with
    | returned v => cases hrest
    | normal =>
      -- the statement ends in the same world, whatever stands behind it
      have hnext : execAll call s (stmt :: (before ++ rest)) w = execAll call s (before ++ rest) w₁ :=
        Run.bind_of_done hexec
      exact hnext.trans (ih hrest)

/-- What has returned, failed or not ended is followed by nothing. -/
theorem execAll_append_of_ended {o : Outcome ScriptError Completion}
    (h : execAll call s before w = (o, w')) (ho : o ≠ .done .normal) :
    execAll call s (before ++ rest) w = (o, w') := by
  induction before generalizing w with
  | nil =>
    cases h
    exact absurd rfl ho
  | cons stmt before ih =>
    change (stmt.exec call s >>= _) w = _ at h
    change (stmt.exec call s >>= _) w = _
    rw [Run.bind_apply] at h ⊢
    rcases hexec : stmt.exec call s w with ⟨(_ | v) | e | _, w₁⟩ <;> rw [hexec] at h
    · exact ih h
    · exact h
    · exact h
    · exact h

theorem runAll_append (h : execAll call s before w = (.done .normal, w')) (hrest : rest ≠ []) :
    runAll call s (before ++ rest) w = runAll call s rest w' := by
  induction before generalizing w with
  | nil =>
    cases h
    rfl
  | cons stmt before ih =>
    obtain ⟨c, w₁, hexec, hnext⟩ := Run.exists_of_bind_done h
    cases c with
    | returned v => cases hnext
    | normal =>
      -- the value of the last statement is what a program yields, but this is not the last
      obtain ⟨other, others, heq⟩ := List.exists_cons_of_ne_nil
        (List.append_ne_nil_of_right_ne_nil before hrest)
      have hstep : runAll call s (stmt :: (before ++ rest)) w = runAll call s (before ++ rest) w₁ := by
        rw [heq]
        cases stmt <;> exact Run.bind_of_done hexec
      exact hstep.trans (ih hnext)

end

/-! ### Where lists stand -/

section

variable (call : CallSemantics)

theorem bindParams_ends (s : Ref .scope) (arguments : Array Value) (i : Nat) (params : List String)
    (w : World) : ∃ w', bindParams s arguments i params w = (.done (), w') ∧
      w'.scopes.size = w.scopes.size := by
  induction params generalizing i w with
  | nil => exact ⟨w, rfl, rfl⟩
  | cons x rest ih =>
    obtain ⟨w', hrest, hsize⟩ :=
      ih (i + 1) (w.setVariable s x ⟨(arguments[i]?).getD .undefined, false⟩)
    exact ⟨w', hrest, hsize.trans (Table.size_update ..)⟩

/-- **The body of a function runs in a scope that is made for the call,** after its parameters and, if
it has them, its arguments were bound there. -/
theorem exists_run_body (c : Closure) (this : Value) (arguments : Array Value) (w : World) :
    ∃ (s : Ref .scope) (w₁ : World), s.row < w₁.scopes.size ∧
      c.run call this arguments w = c.body.run call s w₁ := by
  let this' : Option Value := if c.isArrow then none else some this
  have hmade : (Run.newInnerScope c.scope this' : Script _) w =
      (.done w.scopes.fresh, w.addScope ⟨.empty, some c.scope, this', none, w.heapOf c.scope⟩) := rfl
  have hthere := w.fresh_lt_addScope ⟨.empty, some c.scope, this', none, w.heapOf c.scope⟩
  obtain ⟨w₁, hparams, hsize⟩ := bindParams_ends w.scopes.fresh arguments 0 c.params
    (w.addScope ⟨.empty, some c.scope, this', none, w.heapOf c.scope⟩)
  rw [← hsize] at hthere
  unfold Closure.run
  rw [Run.bind_of_done hmade, Run.bind_of_done hparams]
  cases c.isArrow with
  | true => exact ⟨w.scopes.fresh, w₁, hthere, rfl⟩
  | false => exact ⟨w.scopes.fresh, _, Nat.lt_of_lt_of_eq hthere (Table.size_update ..).symm, rfl⟩

theorem run_blockBody (s : Ref .scope) (ss : List Stmt) (w : World) :
    ((Body.block ss).run call s w).2 = (runBlock call s ss w).2 := by
  rw [Body.run, Run.bind_apply]
  rcases runBlock call s ss w with ⟨(_ | v) | e | _, w'⟩ <;> rfl

/-- **A block runs in a scope that is made for it.** -/
theorem exists_run_block (outer : Ref .scope) (ss : List Stmt) (w : World) :
    ∃ (s : Ref .scope) (w₁ : World), s.row < w₁.scopes.size ∧
      (Stmt.block ss).exec call outer w = runBlock call s ss w₁ :=
  ⟨w.scopes.fresh, _, w.fresh_lt_addScope ⟨.empty, some outer, none, none, w.heapOf outer⟩, rfl⟩

end

/-- **A function that is declared is bound.** Lists of statements stand in programs, blocks and the
bodies of functions, and each is run in a scope that is made for it. Running a list, in whatever scope,
begins by binding what it declares, and comes to a declaration if the statements before it end without
returning. Then the name of the declaration is a variable of the scope. Its value is the function of
this declaration or of a later one of the name in the list, or else every way that leads here from the
beginning of the list has stored it, by a declaration or an assignment. So the name can be looked up
from the scope, now and after whatever steps machines take from here. -/
theorem function_bound (n : Nat) :
    (∀ (p : Program) b w, ∃ (s : Ref .scope) (w₁ : World), s.row < w₁.scopes.size ∧
      (p.evaluate (Machine.ofFuel n).call b w).1 = (p.run (Machine.ofFuel n).call s w₁).1) ∧
    (∀ outer ss w, ∃ (s : Ref .scope) (w₁ : World), s.row < w₁.scopes.size ∧
      (block ss).exec (Machine.ofFuel n).call outer w =
        runBlock (Machine.ofFuel n).call s ss w₁) ∧
    (∀ (c : Closure) ss this arguments w, c.body = .block ss →
      ∃ (s : Ref .scope) (w₁ : World), s.row < w₁.scopes.size ∧
        (c.run (Machine.ofFuel n).call this arguments w).2 =
          (runBlock (Machine.ofFuel n).call s ss w₁).2) ∧
    ∀ (s : Ref .scope) (w₁ : World) before name params body rest, s.row < w₁.scopes.size →
      let call := (Machine.ofFuel n).call
      let declared := Stmt.function name params body
      let all := before ++ declared :: rest
      ∃ w₀, hoist s all w₁ = (.done (), w₀) ∧
        (∀ o w, execAll call s before w₀ = (o, w) → o ≠ .done .normal →
          runBlock call s all w₁ = (o, w)) ∧
        ∀ w, execAll call s before w₀ = (.done .normal, w) →
          runBlock call s all w₁ = execAll call s (declared :: rest) w ∧
          Program.run call ⟨all⟩ s w₁ = runAll call s (declared :: rest) w ∧
          (∃ es, w₀.Passage es w) ∧
          (∃ x, w.local? s name = some x ∧ ∀ es, w₀.Passage es w →
            .store s name x ∈ es ∨ ∃ f params' body', x.value = .function f ∧
              w.functions.get? f = some (.closure ⟨name, params', .block body', false, s⟩) ∧
              .function name params' body' ∈ declared :: rest) ∧
          ∀ es w', w.Passage es w' → ∃ v, Run.lookup s name w' = (.done v, w') := by
  refine ⟨fun p b w => ?_, exists_run_block _, fun c ss this arguments w hbody => ?_,
    fun s w₁ before name params body rest hs => ?_⟩
  · obtain ⟨v, h, -, hresult, -⟩ := p.exists_run_root _ b w
    exact ⟨_, _, v.fresh_lt_addScope _, hresult⟩
  · obtain ⟨s, w₁, hs, hrun⟩ := exists_run_body (Machine.ofFuel n).call c this arguments w
    refine ⟨s, w₁, hs, ?_⟩
    rw [hrun, hbody, run_blockBody]
  · obtain ⟨w₀, hhoist, -, hbound, -⟩ :=
      hoist_binds (before ++ .function name params body :: rest) hs
    refine ⟨w₀, hhoist, fun o w hended ho => ?_, fun w hnormal => ?_⟩
    · exact (Run.bind_of_done hhoist).trans (execAll_append_of_ended hended ho)
    · obtain ⟨⟨params', body'⟩, hlast⟩ := exists_lastFunction? name params body rest
      obtain ⟨f, hlocal, hfunction⟩ := hbound name params' body' (lastFunction?_append before hlast)
      obtain ⟨es, hes⟩ := execAll_passes n s before w₀
      rw [hnormal] at hes
      obtain ⟨x, hx, -⟩ := hes.local_kept hlocal
      refine ⟨(Run.bind_of_done hhoist).trans (execAll_append hnormal),
        (Run.bind_of_done hhoist).trans (runAll_append hnormal (List.cons_ne_nil _ _)),
        ⟨es, hes⟩, ⟨x, hx, fun es' hes' => ?_⟩, fun es' w' hes' => ?_⟩
      · -- whichever way leads here, the variable is what was bound at first or was stored on it
        obtain ⟨x', hx', hfrom⟩ := hes'.local_kept hlocal
        obtain rfl := Option.some.inj (hx'.symm.trans hx)
        rcases hfrom with rfl | hstored
        · exact .inr ⟨f, params', body', rfl, hes.function_kept hfunction, mem_of_lastFunction? hlast⟩
        · exact .inl hstored
      · obtain ⟨x', hx', -⟩ := hes'.local_kept hx
        exact ⟨x'.value, World.lookup_of_local? hx'⟩

/-- A program that comes to the declaration of `f` at its end finds `f` bound. -/
theorem function_bound_at_end :
    ∃ w, Program.run (Machine.ofFuel 1).call ⟨[.expression (.literal .null), .function "f" [] []]⟩
        ⟨0⟩ (World.empty.addHeap.addScope (.root {} ⟨0⟩)) =
          runAll (Machine.ofFuel 1).call ⟨0⟩ [.function "f" [] []] w ∧
      ∃ v, Run.lookup ⟨0⟩ "f" w = (.done v, w) := by
  obtain ⟨-, -, -, lists⟩ := function_bound 1
  obtain ⟨w₀, -, -, hreached⟩ := lists ⟨0⟩ (World.empty.addHeap.addScope (.root {} ⟨0⟩))
    [.expression (.literal .null)] "f" [] [] [] (by decide)
  obtain ⟨-, hrun, -, -, hlookup⟩ := hreached w₀ rfl
  exact ⟨w₀, hrun, hlookup [] w₀ .refl⟩

/-- **A declaration that is a branch of an `if` is not bound.** Executing it does nothing, and no list
of statements has bound it before: the function is undefined behind it. -/
theorem branch_function_undefined :
    (∀ call s params body w, (Stmt.ifElse (.literal (.boolean true)) (.function "f" params body)
      none).exec call s w = (.done .normal, w)) ∧
    (∀ params body, lastFunction? "f" [.ifElse (.literal (.boolean true))
      (.function "f" params body) none, .expression (.call (.name "f") [])] = none) ∧
    (Engine.compiling.evaluate (Machine.ofFuel 3).call "test.js"
      "if (true) function f() { return 1; } f();" {} .empty).1.error? =
        some (.reference "f is not defined") :=
  ⟨fun _ _ _ _ _ => rfl, fun _ _ => rfl, by decide +kernel⟩

end Stmt

end ScriptModules
