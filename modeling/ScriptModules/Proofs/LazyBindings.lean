import Mathlib.Logic.Function.Basic
import ScriptModules.Proofs.Passages
import ScriptModules.Proofs.Quiet

/-!
# Lazy bindings are asked once

Copies of a lazy binding share its cell, wherever they go: the host copies Bindings, takes entries of
one over into another and puts new ones in, and programs are evaluated against any of them, each in a
scope that offers the same cells (`World.Offers`).

What keeps the copies together is a law of every passage from one world to another
(`World.AsksOnce`): a supplier is asked only by a reading of a cell whose value is not known, the value
that it gives is known from then on, and whoever reads the cell gets it. So in a whole session of the
host no supplier is asked twice, and all readings of one cell agree
(`Desk.lazy_bindings_asked_once`).
-/

namespace ScriptModules

/-! ### What is known of a cell -/

/-- The value of the lazy cell is known. -/
def World.Knows (w : World) (c : Ref .cell) (v : Value) : Prop :=
  ∃ s, w.cells.get? c = some ⟨s, some v⟩

namespace World.Knows

variable {w w' : World} {c : Ref .cell} {u v : Value}

theorem unique (h : w.Knows c u) (h' : w.Knows c v) : u = v := by
  obtain ⟨s, hs⟩ := h
  obtain ⟨s', hs'⟩ := h'
  cases hs.symm.trans hs'
  rfl

theorem settle (h : w.Knows c v) (hw : w.CellsSettle w') : w'.Knows c v := by
  obtain ⟨s, hs⟩ := h
  obtain ⟨y, hy, hsettles⟩ := hw c _ hs
  cases hsettles with
  | same => exact ⟨s, hy⟩
  | realized hnone => cases hnone

end World.Knows

/-! ### Who is asked -/

/-- The name under which the host is asked. -/
def Supplier.name? : Supplier → Option String
  | .host name _ => some name
  | .timer _ _ => none

/-- The timer that is asked for. -/
def Supplier.timer? : Supplier → Option (Timer × Ref .context)
  | .timer t c => some (t, c)
  | .host _ _ => none

/-- The cell that was read and the supplier that was asked for it. -/
def Effect.asked? : Effect → Option (Ref .cell × Supplier)
  | .read c _ (some s) => some (c, s)
  | _ => none

theorem Effect.exists_of_asked? {e : Effect} {c : Ref .cell} {s : Supplier}
    (h : e.asked? = some (c, s)) : ∃ v, e = .read c v (some s) := by
  cases e with
  | read c' v asked =>
    cases asked with
    | none => cases h
    | some s' =>
      cases h
      exact ⟨v, rfl⟩
  | list change => cases h
  | store s name x => cases h

/-- **What effects do to lazy cells,** on the way from one world to another. -/
structure World.AsksOnce (w : World) (es : List Effect) (w' : World) : Prop where
  /-- Cells stay and keep their suppliers; one takes a value at most once, and then that of the
  host if the host supplies it. -/
  settle : w.CellsSettle w'
  /-- Whatever reading there was of a cell, its value is the one that is known. -/
  known : ∀ c v asked, .read c v asked ∈ es → w'.Knows c v
  /-- A value that has become known was asked for by a reading. -/
  source : ∀ c v, w'.Knows c v → w.Knows c v ∨ ∃ s, .read c v (some s) ∈ es
  /-- Nobody is asked for a value that was known. -/
  unknown : ∀ c s, (c, s) ∈ es.filterMap Effect.asked? → ∀ v, ¬ w.Knows c v
  /-- For no cell somebody is asked twice. -/
  once : ((es.filterMap Effect.asked?).map Prod.fst).Nodup
  /-- The suppliers of the host that were asked are the ones that the log tells of. -/
  names : w'.realizedNames = w.realizedNames ++
    (es.filterMap Effect.asked?).filterMap fun a => a.2.name?
  /-- The other suppliers have made one timer each. -/
  timers : w'.timers = w.timers ++ (es.filterMap Effect.asked?).filterMap fun a => a.2.timer?

namespace World.AsksOnce

variable {w w₁ w₂ : World} {es es' : List Effect}

/-- All readings of one cell agree. -/
theorem agree (h : w.AsksOnce es w₁) {c : Ref .cell} {u v : Value} {a b : Option Supplier}
    (hu : .read c u a ∈ es) (hv : .read c v b ∈ es) : u = v :=
  (h.known c u a hu).unique (h.known c v b hv)

theorem of_spares (h : w.Spares w₁) : w.AsksOnce [] w₁ where
  settle c x hc := ⟨x, h.cells c x hc, .same⟩
  known _ _ _ := nofun
  source c v hv := by
    obtain ⟨s, hs⟩ := hv
    rcases h.unread c _ hs with hs | hnone
    · exact .inl ⟨s, hs⟩
    · cases hnone
  unknown _ _ := nofun
  once := List.nodup_nil
  names := h.names.trans (List.append_nil _).symm
  timers := h.timers.trans (List.append_nil _).symm

/-- Where cells, functions and the log are the same, nobody was asked. -/
theorem of_same {e : Effect} (he : ∀ c v asked, e ≠ .read c v asked)
    (h : w₁.cells = w.cells ∧ w₁.functions = w.functions ∧ w₁.log = w.log) :
    w.AsksOnce [e] w₁ := by
  obtain ⟨hc, hf, hl⟩ := h
  have hnone : [e].filterMap Effect.asked? = [] := by
    cases e with
    | read c v asked => exact absurd rfl (he c v asked)
    | list change => rfl
    | store s name x => rfl
  refine ⟨.of_same hc, fun c v asked hmem => ?_, fun c v hv => .inl ?_, ?_, ?_, ?_, ?_⟩
  · exact absurd (List.mem_singleton.1 hmem).symm (he c v asked)
  · rwa [Knows, ← hc]
  · rw [hnone]
    exact fun _ _ => nofun
  · rw [hnone]
    exact List.nodup_nil
  · rw [hnone, realizedNames, hl]
    exact (List.append_nil _).symm
  · rw [hnone, World.timers, hf]
    exact (List.append_nil _).symm

theorem trans (h : w.AsksOnce es w₁) (h' : w₁.AsksOnce es' w₂) : w.AsksOnce (es ++ es') w₂ where
  settle := h.settle.trans h'.settle
  known c v asked hmem := by
    rcases List.mem_append.1 hmem with hmem | hmem
    · exact (h.known c v asked hmem).settle h'.settle
    · exact h'.known c v asked hmem
  source c v hv := by
    rcases h'.source c v hv with hv | ⟨s, hs⟩
    · exact (h.source c v hv).imp_right fun ⟨s, hs⟩ => ⟨s, List.mem_append_left _ hs⟩
    · exact .inr ⟨s, List.mem_append_right _ hs⟩
  unknown c s hmem v hv := by
    rw [List.filterMap_append] at hmem
    rcases List.mem_append.1 hmem with hmem | hmem
    · exact h.unknown c s hmem v hv
    · exact h'.unknown c s hmem v (hv.settle h.settle)
  once := by
    rw [List.filterMap_append, List.map_append, List.nodup_append]
    refine ⟨h.once, h'.once, fun c hc c' hc' heq => ?_⟩
    subst heq
    -- what was asked for on the first part of the way is known on the second
    obtain ⟨⟨_, s⟩, hmem, rfl⟩ := List.mem_map.1 hc
    obtain ⟨⟨_, s'⟩, hmem', rfl⟩ := List.mem_map.1 hc'
    obtain ⟨e, he, hasked⟩ := List.mem_filterMap.1 hmem
    obtain ⟨v, rfl⟩ := e.exists_of_asked? hasked
    exact h'.unknown _ s' hmem' v (h.known _ v _ he)
  names := by
    rw [h'.names, h.names, List.filterMap_append, List.filterMap_append, List.append_assoc]
  timers := by
    rw [h'.timers, h.timers, List.filterMap_append, List.filterMap_append, List.append_assoc]

end World.AsksOnce

/-! ### Readings -/

namespace World.AsksOnce

variable {w w' : World} {c : Ref .cell} {s : Supplier} {v : Value}

/-- A cell whose value is known is read, and nobody is asked. -/
theorem of_known (h : w.Knows c v) : w.AsksOnce [.read c v none] w where
  settle := .of_same rfl
  known d u asked hmem := by
    cases List.mem_singleton.1 hmem
    exact h
  source _ _ := .inl
  unknown _ _ := nofun
  once := List.nodup_nil
  names := (List.append_nil _).symm
  timers := (List.append_nil _).symm

/-- A cell is read first: its supplier gives the value, and the cell keeps it. -/
theorem of_first (hc : w.cells.get? c = some ⟨s, none⟩)
    (hcells : w'.cells = w.cells.update c fun x => { x with value := some v })
    (hhost : ∀ name u, s = .host name u → v = u)
    (hnames : w'.realizedNames = w.realizedNames ++ s.name?.toList)
    (htimers : w'.timers = w.timers ++ s.timer?.toList) :
    w.AsksOnce [.read c v (some s)] w' := by
  have hget : ∀ d, w'.cells.get? d =
      if c = d then (w.cells.get? d).map fun x => { x with value := some v }
      else w.cells.get? d := fun d => by rw [hcells, Table.get?_update]
  have hself : w'.cells.get? c = some ⟨s, some v⟩ := by
    rw [hget, if_pos rfl, hc]
    rfl
  constructor
  -- each clause looks at the cell that was read, and at the others
  case settle =>
    intro d x hd
    by_cases hcd : c = d
    · subst hcd
      cases hc.symm.trans hd
      exact ⟨_, hself, .realized rfl hhost⟩
    · exact ⟨x, by rwa [hget, if_neg hcd], .same⟩
  case known =>
    intro d u asked hmem
    cases List.mem_singleton.1 hmem
    exact ⟨s, hself⟩
  case source =>
    intro d u hu
    by_cases hcd : c = d
    · subst hcd
      obtain rfl : v = u := Knows.unique ⟨s, hself⟩ hu
      exact .inr ⟨s, List.mem_singleton_self _⟩
    · rw [Knows, hget, if_neg hcd] at hu
      exact .inl hu
  case unknown =>
    intro d t hmem u hu
    cases List.mem_singleton.1 hmem
    obtain ⟨s', hs'⟩ := hu
    cases hc.symm.trans hs'
  case once => exact List.nodup_singleton c
  case names =>
    rw [hnames]
    cases s <;> rfl
  case timers =>
    rw [htimers]
    cases s <;> rfl

end World.AsksOnce

/-- **One reading** asks the supplier if the value is not known. -/
theorem Run.realize_asksOnce {w w' : World} {c : Ref .cell} {x : Cell} {v : Value}
    (hc : w.cells.get? c = some x) (hv : (Run.realize c : Script Value) w = (.done v, w')) :
    w.AsksOnce [.read c v x.asks] w' := by
  obtain ⟨⟨t, context⟩ | ⟨name, u⟩, _ | u'⟩ := x
  case timer.none =>
    obtain ⟨heq, rfl⟩ := Prod.mk.inj ((realize_of_timer hc).symm.trans hv)
    obtain rfl := Outcome.done.inj heq
    refine .of_first hc rfl nofun (List.append_nil _).symm ?_
    simp only [World.timers, Table.add, Array.toList_push, List.filterMap_append]
    rfl
  case host.none =>
    obtain ⟨heq, rfl⟩ := Prod.mk.inj ((realize_of_host hc).symm.trans hv)
    obtain rfl := Outcome.done.inj heq
    refine .of_first hc rfl (fun name' u' h => (Supplier.host.inj h).2) ?_
      (List.append_nil _).symm
    exact List.reverse_cons
  all_goals
    obtain ⟨heq, rfl⟩ := Prod.mk.inj ((realize_of_value hc).symm.trans hv)
    obtain rfl := Outcome.done.inj heq
    exact .of_known ⟨_, hc⟩

/-- **No supplier is asked twice on the way,** and all readings of a cell agree. -/
theorem World.Passage.asksOnce {w w' : World} {es : List Effect} (h : w.Passage es w') :
    w.AsksOnce es w' := by
  induction h with
  | refl => exact .of_spares (.refl w)
  | @spare es _ _ _ hs ih =>
    rw [← List.append_nil es]
    exact ih.trans (.of_spares hs)
  | effect _ he ih =>
    -- of the effects only a reading has to do with cells
    refine ih.trans ?_
    cases he with
    | list change =>
      obtain ⟨lists, heq⟩ := ListChange.after_eq _ change
      rw [heq]
      exact .of_same nofun ⟨rfl, rfl, rfl⟩
    | read hc hv => exact Run.realize_asksOnce hc hv
    | store s name x => exact .of_same nofun ⟨rfl, rfl, rfl⟩
  | @release _ w₁ h _ _ ih =>
    obtain ⟨table, heq⟩ := w₁.release_eq h
    rw [heq]
    exact { ih with }

/-! ### Reading several bindings -/

/-- What a binding gives in a later world it gives in the first: its cell, if it was there, is there
still. -/
theorem Binding.Gives.of_settle {w w' : World} {v : Value} {es : List Effect} {b : Binding}
    (hw : w.CellsSettle w') (h : b.Gives w' v es) : b.Gives w v es := by
  cases b with
  | value u => exact h
  | lazy c =>
    intro hc
    obtain ⟨x, hx⟩ := Option.isSome_iff_exists.1 hc
    obtain ⟨y, hy, -⟩ := hw c x hx
    exact h (by rw [hy]; rfl)

/-- Entries are read in order, each of them once. -/
theorem Bindings.realizeAll_gives (w : World) (entries : List (String × Binding)) :
    ∃ (readings : List (Value × List Effect)) (w' : World),
      (realizeAll entries : Script _) w =
        (.done (List.zipWith (fun e r => (e.1, r.1)) entries readings), w') ∧
      w.Passage (readings.flatMap Prod.snd) w' ∧
      List.Forall₂ (fun e r => e.2.Gives w r.1 r.2) entries readings := by
  induction entries generalizing w with
  | nil => exact ⟨[], w, rfl, .refl, .nil⟩
  | cons e rest ih =>
    obtain ⟨v, w₁, es, hrun, hes, hgives⟩ := e.2.realize_gives w
    obtain ⟨readings, w₂, hrest, hpassage, hall⟩ := ih w₁
    -- the rest is read in a later world, where every cell is there still
    refine ⟨(v, es) :: readings, w₂, ?_, hes.trans hpassage, .cons hgives (hall.imp
      fun _ _ => .of_settle hes.asksOnce.settle)⟩
    change ((e.2.realize : Script _) >>= fun v =>
      (realizeAll rest : Script _) >>= fun vs => pure ((e.1, v) :: vs)) w = _
    rw [Run.bind_of_done (hrun _), Run.bind_of_done hrest]
    rfl

/-- **What looking up a name gives,** and the effects of it: one entry is read, if there is one of
the name. -/
def Bindings.Gives (w : World) (name : String) (es : List Effect) (b : Bindings) :
    Option Value → Prop
  | none => b.entries.get? name = none ∧ es = []
  | some v => ∃ e, b.entries.get? name = some e ∧ e.Gives w v es

theorem Bindings.get?_gives (w : World) (b : Bindings) (name : String) :
    ∃ v w' es, (b.get? name : Script _) w = (.done v, w') ∧ w.Passage es w' ∧
      b.Gives w name es v := by
  unfold Bindings.get?
  cases hentry : b.entries.get? name with
  | none => exact ⟨none, w, [], rfl, .refl, hentry, rfl⟩
  | some e =>
    obtain ⟨v, w', es, hreads, hes, hgives⟩ := e.realize_gives w
    exact ⟨some v, w', es, Run.bind_of_done (hreads _), hes, e, hentry, hgives⟩

/-- All entries are read, and their values are the properties of a new object. -/
theorem Bindings.toObject_gives (w : World) (b : Bindings) :
    ∃ (o : Ref .object) (readings : List (Value × List Effect)) (w' : World),
      (b.toObject : Script _) w = (.done (.object o), w') ∧
      w.Passage (readings.flatMap Prod.snd) w' ∧
      List.Forall₂ (fun e r => e.2.Gives w r.1 r.2) b.entries.entries readings ∧
      (w'.object o).properties =
        .ofList (List.zipWith (fun e r => (e.1, r.1)) b.entries.entries readings) := by
  obtain ⟨readings, w', hreads, hes, hall⟩ := Bindings.realizeAll_gives w b.entries.entries
  refine ⟨_, readings, _, Run.bind_of_done hreads, hes.spare (.of_same rfl rfl rfl rfl rfl rfl), hall,
    ?_⟩
  change (((w'.objects.add _).get? w'.objects.fresh).getD {}).properties = _
  rw [Table.get?_add_fresh]
  rfl

/-! ### What a script sees -/

/-- A name that is not declared along the chain of scopes is bound by the host. -/
def World.Sees (w : World) (s : Ref .scope) (name : String) (b : Binding) : Prop :=
  w.declaration? s name = none ∧ ∃ g, w.globalsOf s = some g ∧ g.entries.get? name = some b

/-- **A script reads a lazy binding** through the name that it sees. -/
theorem Run.tryLookup_gives {w : World} {s : Ref .scope} {name : String} {c : Ref .cell}
    (hsees : w.Sees s name (.lazy c)) (hc : (w.cells.get? c).isSome) :
    ∃ v asked w', (Run.tryLookup s name : Script _) w = (.done (some v), w') ∧
      w.Passage [.read c v asked] w' := by
  obtain ⟨hfree, g, hglobals, hentry⟩ := hsees
  obtain ⟨v, w', es, hreads, hes, hgives⟩ := (Binding.lazy c).realize_gives w
  obtain ⟨asked, rfl⟩ := hgives hc
  refine ⟨v, asked, w', ?_, hes⟩
  simp only [Run.tryLookup, hfree, hglobals, Bindings.get?, hentry]
  exact Run.bind_of_done (hreads _)

/-- What was read before is not asked for again. -/
theorem World.AsksOnce.again {w w₁ w₂ : World} {es : List Effect} {c : Ref .cell} {u v : Value}
    {a asked : Option Supplier} (h : w.AsksOnce es w₁) (hread : .read c u a ∈ es)
    (hagain : w₁.Passage [.read c v asked] w₂) : u = v ∧ asked = none := by
  have hasks := hagain.asksOnce
  have hknown := h.known c u a hread
  refine ⟨(hknown.settle hasks.settle).unique (hasks.known c v asked (List.mem_singleton_self _)),
    Option.eq_none_iff_forall_ne_some.mpr fun s hs => ?_⟩
  subst hs
  -- nobody is asked for what was known
  exact hasks.unknown c s (List.mem_singleton_self _) u hknown

/-- Seen from a scope without a parent in which the name is no variable. -/
theorem World.sees_iff {w : World} {s : Ref .scope} {x : Scope} {name : String} {b : Bindings}
    {e : Binding} (hs : w.scopes.get? s = some x) (hparent : x.parent = none)
    (hglobals : x.globals = some b) (hname : x.locals.get? name = none) :
    w.Sees s name e ↔ b.entries.get? name = some e := by
  have hchain : w.scopeChain s = [(s, x)] := by
    simp only [scopeChain, chainFrom, hs, hparent]
  have hfree : w.declaration? s name = none := by
    simp only [declaration?, hchain, List.findSome?_cons, hname, Option.map_none,
      List.findSome?_nil]
  have hbound : w.globalsOf s = some b := by
    rw [globalsOf, hchain]
    exact hglobals
  -- the scope is the whole chain, so there is no other root to look below
  constructor
  · rintro ⟨-, g, hg, hentry⟩
    cases hbound.symm.trans hg
    exact hentry
  · exact fun hentry => ⟨hfree, b, hbound, hentry⟩

/-- **The scope offers the Bindings:** from here on, at whatever moment, a name that was not stored in
the scope since is bound there as they bind it. -/
def World.Offers (w : World) (s : Ref .scope) (b : Bindings) : Prop :=
  ∀ es w', w.Passage es w' → ∀ name,
    (∃ v, .store s name v ∈ es) ∨ ∀ e, w'.Sees s name e ↔ b.entries.get? name = some e

theorem World.offers_addScope (w : World) (b : Bindings) (h : Ref .heap) :
    (w.addScope (.root b h)).Offers w.scopes.fresh b := by
  intro es w' hes name
  obtain ⟨x, hx, hgrows⟩ := hes.scope_kept (w.scopes.get?_add_fresh (.root b h))
  obtain ⟨hparent, -⟩ := Prod.mk.inj hgrows.place
  cases hname : x.locals.get? name with
  | none => exact .inr fun e => sees_iff hx hparent hgrows.globals hname
  | some v => exact .inl ⟨v, (hgrows.source name v hname).resolve_left nofun⟩

/-- **A program is evaluated in a scope of its own,** which offers the Bindings. Nothing is read but
while it runs there. -/
structure Program.EvaluatesIn (call : CallSemantics) (b : Bindings) (w : World) (es : List Effect)
    (p : Program) (s : Ref .scope) (w₀ : World) : Prop where
  begins : w.Passage [] w₀
  offers : w₀.Offers s b
  runs : w₀.Passage es (p.run call s w₀).2
  result : (p.evaluate call b w).1 = (p.run call s w₀).1
  ends : (p.evaluate call b w).2.cells = (p.run call s w₀).2.cells

theorem Program.exists_evaluatesIn {call : CallSemantics} {p : Program}
    (hp : ∀ s, (p.run call s).Passes) (b : Bindings) (w : World) :
    ∃ es s w₀, w.Passage es (p.evaluate call b w).2 ∧ p.EvaluatesIn call b w es s w₀ := by
  obtain ⟨v, h, hbegins, hresult, hend⟩ := p.exists_run_root call b w
  obtain ⟨es, hes⟩ := hp v.scopes.fresh (v.addScope (.root b h))
  refine ⟨es, v.scopes.fresh, _, ?_, hbegins, v.offers_addScope b h, hes, hresult, ?_⟩
  · rcases hend with hend | ⟨r, hr, hend⟩ <;> rw [hend]
    · exact hbegins.trans hes
    · exact (hbegins.trans hes).release hr
  · rcases hend with hend | ⟨r, -, hend⟩ <;> rw [hend]
    -- a release leaves cells alone
    obtain ⟨table, htable⟩ := (p.run call v.scopes.fresh (v.addScope (.root b h))).2.release_eq r
    rw [htable]

/-! ### The desk of a host -/

/-- What a host has at hand: Bindings, by number, and the world. -/
structure Desk where
  bindings : Nat → Bindings
  world : World

/-- What a host does with its Bindings. -/
inductive Handling where
  | put (i : Nat) (name : String) (v : Value)
  /-- The name is bound to a new lazy binding. -/
  | putLazy (i : Nat) (name : String) (s : Supplier)
  | get (i : Nat) (name : String)
  | remove (i : Nat) (name : String)
  /-- Bindings `j` become a copy of Bindings `i`. -/
  | clone (i j : Nat)
  /-- Bindings `i` take over the entries of Bindings `j`. -/
  | extend (i j : Nat)
  | toObject (i : Nat)
  /-- A program is evaluated against a copy of Bindings `i`. -/
  | evaluate (i : Nat) (p : Program)
  /-- A function is called, such as one that an evaluation gave. -/
  | call (f : Ref .function) (this : Value) (arguments : Array Value)

namespace Handling

/-- The Bindings that change, if any do. -/
def target? : Handling → Option Nat
  | .put i _ _ | .putLazy i _ _ | .remove i _ | .extend i _ => some i
  | .clone _ j => some j
  | .get _ _ | .toObject _ | .evaluate _ _ | .call _ _ _ => none

/-- The Bindings afterwards, if it begins in the world. -/
def bindings (w : World) (d : Nat → Bindings) : Handling → Nat → Bindings
  | .put i name v => Function.update d i ((d i).put name v)
  | .putLazy i name _ => Function.update d i ((d i).putLazy name w.cells.fresh)
  | .remove i name => Function.update d i ((d i).erase name)
  | .clone i j => Function.update d j (d i)
  | .extend i j => Function.update d i ((d i).extend (d j))
  | .get _ _ | .toObject _ | .evaluate _ _ | .call _ _ _ => d

/-- What it does to the world, and its answer. -/
def run (call : CallSemantics) (d : Nat → Bindings) : Handling → Script (Option Value)
  | .putLazy _ _ s => do
    let _ ← Run.newCell s
    return none
  | .get i name => (d i).get? name
  | .toObject i => do return some (← (d i).toObject)
  | .evaluate i p => do return some (← p.evaluate call (d i))
  | .call f this arguments => do return some (← call f this arguments)
  | .put _ _ _ | .remove _ _ | .clone _ _ | .extend _ _ => return none

end Handling

/-- The desk afterwards. -/
def Desk.after (call : CallSemantics) (x : Desk) (d : Handling) : Desk where
  bindings := d.bindings x.world x.bindings
  world := (d.run call x.bindings x.world).2

/-- **What is read,** given the effects. The host reads the entries that it names, each of them once
and in order, and its answer is what they give. A program reads what it looks up in a scope that offers
the Bindings, a function is free to read, and nothing else reads. -/
def Handling.Shows (call : CallSemantics) (x : Desk) (es : List Effect) (d : Handling) : Prop :=
  match d with
  | .get i name => ∃ v, (d.run call x.bindings x.world).1 = .done v ∧
      (x.bindings i).Gives x.world name es v
  | .toObject i =>
    ∃ o readings, (d.run call x.bindings x.world).1 = .done (some (.object o)) ∧
      ((x.after call d).world.object o).properties =
        .ofList (List.zipWith (fun e r => (e.1, r.1)) (x.bindings i).entries.entries readings) ∧
      List.Forall₂ (fun e r => e.2.Gives x.world r.1 r.2) (x.bindings i).entries.entries readings ∧
      es = readings.flatMap Prod.snd
  | .evaluate i p => ∃ s w₀, p.EvaluatesIn call (x.bindings i) x.world es s w₀
  | .call _ _ _ => True
  | _ => es = []

/-- A session goes on one handling after the other; each makes a passage, and shows what it reads. -/
def Desk.Follows (call : CallSemantics) : Desk → List Handling → List (List Effect) → Prop
  | _, [], [] => True
  | x, d :: ds, es :: traces =>
    x.world.Passage es (x.after call d).world ∧ d.Shows call x es ∧
      (x.after call d).Follows call ds traces
  | _, _, _ => False

/-- What a run leaves behind does not hang on what is made of its value. -/
theorem Run.bind_pure_world {ε α β : Type} (x : Run ε α) (g : α → β) (w : World) :
    ((x >>= fun a => pure (g a)) w).2 = (x w).2 := by
  rw [Run.bind_apply]
  rcases x w with ⟨a | e | _, w'⟩ <;> rfl

namespace Desk

variable {call : CallSemantics}

/-- **One handling** makes a passage, in which it reads what it should. -/
theorem exists_effects (hc : ∀ f this arguments, (call f this arguments).Passes)
    (hp : ∀ s (p : Program), (p.run call s).Passes) (x : Desk) (d : Handling) :
    ∃ es, x.world.Passage es (x.after call d).world ∧ d.Shows call x es := by
  cases d with
  -- nothing is asked of a supplier before its value is needed
  | put | remove | clone | extend => exact ⟨[], .refl, rfl⟩
  | putLazy i name s => exact ⟨[], .of_spares (.addCell x.world s), rfl⟩
  | get i name =>
    obtain ⟨v, w', es, hrun, hes, hgives⟩ := (x.bindings i).get?_gives x.world name
    refine ⟨es, ?_, v, congrArg Prod.fst hrun, hgives⟩
    change x.world.Passage es ((x.bindings i).get? name x.world).2
    rwa [hrun]
  | toObject i =>
    obtain ⟨o, readings, w', hrun, hes, hall, hproperties⟩ := (x.bindings i).toObject_gives x.world
    have hafter : (Handling.toObject i).run call x.bindings x.world = (.done (some (.object o)), w') :=
      Run.bind_of_done hrun
    refine ⟨_, ?_, o, readings, congrArg Prod.fst hafter, ?_, hall, rfl⟩
    · rwa [after, hafter]
    · rwa [after, hafter]
  | evaluate i p =>
    obtain ⟨es, s, w₀, hes, hshows⟩ :=
      Program.exists_evaluatesIn (hp · p) (x.bindings i) x.world
    refine ⟨es, ?_, s, w₀, hshows⟩
    rwa [after, Handling.run, Run.bind_pure_world]
  | call f this arguments =>
    obtain ⟨es, hes⟩ := hc f this arguments x.world
    refine ⟨es, ?_, trivial⟩
    rwa [after, Handling.run, Run.bind_pure_world]

theorem exists_traces (hc : ∀ f this arguments, (call f this arguments).Passes)
    (hp : ∀ s (p : Program), (p.run call s).Passes) (x : Desk) (ds : List Handling) :
    ∃ traces, x.Follows call ds traces := by
  induction ds generalizing x with
  | nil => exact ⟨[], trivial⟩
  | cons d ds ih =>
    obtain ⟨es, hes, hshows⟩ := x.exists_effects hc hp d
    obtain ⟨traces, hfollows⟩ := ih (x.after call d)
    exact ⟨es :: traces, hes, hshows, hfollows⟩

/-- The passages of a session make one. -/
theorem Follows.passage {x : Desk} {ds : List Handling} {traces : List (List Effect)}
    (h : x.Follows call ds traces) :
    x.world.Passage traces.flatten (ds.foldl (Desk.after call) x).world := by
  induction ds generalizing x traces with
  | nil =>
    cases traces with
    | nil => exact .refl
    | cons es rest => exact absurd h id
  | cons d ds ih =>
    cases traces with
    | nil => exact absurd h id
    | cons es rest => exact h.1.trans (ih h.2.2)

/-! ### What a handling leaves alone -/

theorem bindings_of_ne_target {x : Desk} {d : Handling} {j : Nat} (h : d.target? ≠ some j) :
    (x.after call d).bindings j = x.bindings j := by
  have hne : ∀ i, some i ≠ some j → j ≠ i := fun i hi heq => hi (congrArg some heq.symm)
  cases d with
  | get | toObject | evaluate | call => rfl
  | _ => exact Function.update_of_ne (hne _ h) ..

/-- In one of the Bindings one name is bound anew. -/
theorem entry_update_insert (d : Nat → Bindings) (i : Nat) (name : String) (b : Binding) (j : Nat)
    (other : String) :
    (Function.update d i { d i with entries := (d i).entries.insert name b } j).entries.get? other =
      if j = i ∧ name = other then some b else (d j).entries.get? other := by
  by_cases hj : j = i
  · subst hj
    rw [Function.update_self, OrderedMap.get?_insert]
    simp only [true_and]
  · rw [Function.update_of_ne hj, if_neg fun h => hj h.1]

/-- **Lazy bindings are asked once.** Whatever a host does with its Bindings, one thing after the
other, and whatever programs it evaluates against them: no lazy cell is asked for twice, no cell is
asked for unless it is read, and all readings of a cell agree, through whatever copy they are made.
The host reads the entries that it names. A program reads nothing until it runs in its scope, which
offers the same cells as the Bindings that it is evaluated against. A script, at any moment of what is
evaluated next, reads the cell of the entry that it sees; if that was read before, whoever did it, then
the script gets the same value and nobody is asked. What is put into some Bindings later replaces one
entry there, and nothing elsewhere. -/
theorem lazy_bindings_asked_once (n : Nat) (x : Desk) (ds : List Handling) :
    let call := (Machine.ofFuel n).call
    let y := ds.foldl (Desk.after call) x
    (∃ traces, x.Follows call ds traces) ∧
    (∀ traces, x.Follows call ds traces → x.world.AsksOnce traces.flatten y.world ∧
      (∀ c u v a b, .read c u a ∈ traces.flatten → .read c v b ∈ traces.flatten → u = v) ∧
      ∀ es w, y.world.Passage es w → ∀ s name c, w.Sees s name (.lazy c) →
        (w.cells.get? c).isSome → ∃ v asked w',
          (Run.tryLookup s name : Script _) w = (.done (some v), w') ∧
          x.world.AsksOnce (traces.flatten ++ es ++ [.read c v asked]) w' ∧
          ∀ u a, .read c u a ∈ traces.flatten ++ es → u = v ∧ asked = none) ∧
    (∀ (d : Handling) j, d.target? ≠ some j → (y.after call d).bindings j = y.bindings j) ∧
    (∀ i name v j other, ((y.after call (.put i name v)).bindings j).entries.get? other =
      if j = i ∧ name = other then some (.value v) else (y.bindings j).entries.get? other) ∧
    ∀ i name s, let y' := y.after call (.putLazy i name s)
      ∃ c, y.world.cells.get? c = none ∧ y'.world.cells.get? c = some ⟨s, none⟩ ∧
        ∀ j other, (y'.bindings j).entries.get? other =
          if j = i ∧ name = other then some (.lazy c) else (y.bindings j).entries.get? other := by
  intro call y
  refine ⟨x.exists_traces (Machine.ofFuel_passes n).call (Program.run_passes n) ds,
    fun traces hfollows => ?_, fun _ _ => bindings_of_ne_target,
    fun i name v => entry_update_insert _ i name _, fun i name s => ⟨_, y.world.cells.get?_fresh,
    y.world.cells.get?_add_fresh _, entry_update_insert _ i name _⟩⟩
  have hpassage : x.world.Passage traces.flatten y.world := hfollows.passage
  refine ⟨hpassage.asksOnce, fun _ _ _ _ _ => hpassage.asksOnce.agree,
    fun es w hes s name c hsees hc => ?_⟩
  obtain ⟨v, asked, w', hlookup, hread⟩ := Run.tryLookup_gives hsees hc
  have hway := hpassage.trans hes
  exact ⟨v, asked, w', hlookup, (hway.trans hread).asksOnce,
    fun _ _ hmem => hway.asksOnce.again hmem hread⟩

/-- A script reads one entry of a copy. The original is read later, when the copy has another entry of
that name; the entry beside it is never read. -/
example : (List.foldl (after (Machine.ofFuel 0).call) ⟨fun _ => {}, .empty⟩
    [.putLazy 0 "answer" (.host "answer" (.text "42")), .putLazy 0 "other" (.host "other" .null),
      .clone 0 1, .evaluate 1 ⟨[.expression (.name "answer")]⟩, .put 1 "answer" .null,
      .get 0 "answer"]).world.realizedNames = ["answer"] := by
  rfl

end Desk

end ScriptModules
