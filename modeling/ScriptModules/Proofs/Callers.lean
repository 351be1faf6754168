import ScriptModules.Proofs.Faults
import ScriptModules.Proofs.Resolution
import ScriptModules.Proofs.Upkeep
import ScriptModules.Proofs.Use

/-!
# Who asks for a module

The `use` of a module carries the names that the render provides, with the module's own path in the
place of the reserved one. It carries them wherever it is called from, so whatever is asked for
through it is looked up from that module; and what it finds is run under the same names with its own
path, and so gets a `use` of the same kind.

`Terms.ofRender` says this of all functions and tasks that there are at one time. No operation
breaks it (`Terms.ofRender_coherent`), so it is so in every world that a render comes through
(`ModuleProvider.Course`), whatever its scripts do and in whatever order its tasks run. The main
statement is `ModuleProvider.render_asks_from_own_path`.
-/

namespace ScriptModules

/-! ### Names put again -/

theorem OrderedMap.insert_insert {α : Type} (m : OrderedMap α) (name : String) (a b : α) :
    (m.insert name a).insert name b = m.insert name b := by
  have hput : ∀ l : List (String × α), put name b (put name a l) = put name b l := by
    intro l
    induction l with
    | nil => simp [put]
    | cons e rest ih =>
      by_cases he : e.1 = name
      · simp [put, he]
      · simp [put, he, ih]
  exact congrArg mk (hput m.entries)

/-- A module runs under the names of the render with its own path, whoever it inherits them from. -/
theorem ModuleSource.bindingsFrom_bindingsFrom (source other : ModuleSource) (globals : Bindings) :
    source.bindingsFrom (other.bindingsFrom globals) = source.bindingsFrom globals :=
  congrArg (Bindings.mk · globals.heap) (OrderedMap.insert_insert globals.entries _ _ _)

/-! ### Modules of a repository -/

/-- **The repository holds the module under its normal path.** -/
structure Repository.HasModule (r : Repository) (m : ModuleSource) : Prop where
  normal : Path.normalize m.name = some m.name
  kept : ∃ x, r.lookup m.name = some x ∧ x.content = some m.content

namespace Repository

variable {r : Repository}

/-- Whatever a name may stand for is a normal path. -/
theorem normal_of_mem_candidates {name path : String} (h : path ∈ r.candidates name) :
    Path.normalize path = some path := by
  unfold candidates at h
  split at h
  · exact Path.normalize_normal (Option.mem_toList.1 h)
  · obtain ⟨root, -, hnormal⟩ := List.mem_filterMap.1 h
    exact Path.normalize_normal hnormal

/-- And so is every place where it is sought. -/
theorem normal_of_mem_places {nodes : List Resource} {name path : String}
    (h : path ∈ r.places nodes name) : Path.normalize path = some path := by
  rcases List.mem_append.1 h with h | h
  · exact normal_of_mem_candidates h
  · obtain ⟨node, -, h⟩ := List.mem_flatMap.1 h
    unfold placesNextTo at h
    dsimp only at h
    split at h
    · obtain ⟨place, -, h⟩ := List.mem_flatMap.1 h
      exact normal_of_mem_candidates h
    · exact Path.normalize_normal (Option.mem_toList.1 h)

end Repository

namespace Resolver

variable {r : Resolver}

/-- What is found for a name is kept under a normal path. -/
theorem kept_of_locate {context : LookupContext} {dependency : String} {x : Resource}
    (h : (r.locate context dependency).value = some x) :
    r.repository.Kept x ∧ Path.normalize x.path = some x.path := by
  obtain ⟨nodes, -, heq⟩ := r.locate_eq context dependency
  rw [heq] at h
  obtain ⟨place, hplace, hx⟩ := List.exists_of_findSome?_eq_some h
  refine ⟨Repository.kept_of_lookup hx, ?_⟩
  rw [Repository.path_of_lookup hx]
  exact Repository.normal_of_mem_places hplace

/-- **A module that is found is one that the repository holds.** -/
theorem hasModule_of_resolve {context : LookupContext} {dependency : String} {m : ModuleSource}
    (h : (r.resolve context dependency).value = .ok m) : r.repository.HasModule m := by
  cases hname : isScriptName r.extension dependency with
  | false =>
    unfold resolve at h
    rw [if_pos (by rw [hname]; exact Bool.false_ne_true)] at h
    cases h
  | true =>
    rw [r.value_resolve hname, answerFor_eq_ok] at h
    obtain ⟨x, hx, hpath, hcontent⟩ := h
    obtain ⟨hkept, hnormal⟩ := kept_of_locate hx
    rw [Repository.Kept, hpath] at hkept
    rw [hpath] at hnormal
    exact ⟨hnormal, x, hkept, hcontent⟩

/-- An absolute path under which a module is kept leads to it. -/
theorem pathOf_of_hasModule {m : ModuleSource} (h : r.repository.HasModule m)
    (habsolute : Path.isAbsolute m.name.toList = true) : r.pathOf m.name = some m.name := by
  obtain ⟨x, hx, -⟩ := h.kept
  have hget : r.repository.get m.name = some x := by
    unfold Repository.get Repository.candidates
    rw [if_pos habsolute, h.normal]
    exact (List.findSome?_singleton ..).trans hx
  have hname : m.name ≠ "" := by
    intro hempty
    rw [hempty] at habsolute
    exact absurd habsolute (by decide)
  unfold pathOf
  rw [if_neg (by simpa using hname), hget, Option.map_some, Repository.path_of_lookup hx]

end Resolver

/-! ### Asking from a module -/

namespace UseSite

/-- **What a request for modules comes to that asks from the script `path`,** in a render under the
given names: the script is the caller, and what is found runs as if it were the first module. -/
def useFrom (m : Machine) (site : UseSite) (path : String) (globals : Bindings)
    (dependencies : List String) (callback : Ref .function) : Hosted (Ref .container) := do
  let environment ← site.liveEnvironment
  let context ← site.liveContext
  let driverType ← globals.getText? ReservedName.resourceType
  let sources ← environment.resolver.findAll ⟨some path, driverType⟩ dependencies
  let (g, result) ← Run.openGathering sources.length callback site.this path
  { site with globals := globals }.runAll m context g 0 sources
  return result

variable {site : UseSite} {m : ModuleSource} {globals : Bindings}

/-- The modules that a `use` schedules run under the names of the render with their own paths. -/
theorem runAll_bindingsFrom (machine : Machine) (h : site.globals = m.bindingsFrom globals)
    (context : Ref .context) (g : Ref .gathering) (slot : Nat) (sources : List ModuleSource) :
    site.runAll machine context g slot sources =
      { site with globals := globals }.runAll machine context g slot sources := by
  induction sources generalizing slot with
  | nil => rfl
  | cons source rest ih =>
    unfold runAll
    rw [h, ModuleSource.bindingsFrom_bindingsFrom, ih (slot + 1)]

/-- The caller of a module's `use` is the module. -/
theorem lookupContext_of_hasModule {r : Resolver} (hm : r.repository.HasModule m)
    (habsolute : Path.isAbsolute m.name.toList = true) (b : Bindings) (w : World) :
    ∃ driverType w',
      (b.getText? ReservedName.resourceType : Hosted _) w = (.done driverType, w') ∧
      (r.lookupContext (m.bindingsFrom b) : Hosted _) w =
        (.done ⟨some m.name, driverType⟩, w') := by
  have hyields : Run.Yields (b.getText? ReservedName.resourceType : Hosted _) := b.getText?_yields _
  obtain ⟨driverType, w', hdriver⟩ := hyields w
  refine ⟨driverType, w', hdriver, ?_⟩
  -- the reserved name of the script is written over, that of the driving type is not
  have hscript : ((m.bindingsFrom b).getText? ReservedName.scriptFilename : Hosted _) =
      pure (some m.name) := by
    unfold Bindings.getText? Bindings.get? ModuleSource.bindingsFrom Bindings.put
    rw [OrderedMap.get?_insert, if_pos rfl]
    rfl
  have htype : ((m.bindingsFrom b).getText? ReservedName.resourceType : Hosted _) =
      b.getText? ReservedName.resourceType := by
    unfold Bindings.getText? Bindings.get? ModuleSource.bindingsFrom Bindings.put
    rw [OrderedMap.get?_insert, if_neg (by decide)]
  have hcaller : (r.callerIn (m.bindingsFrom b)
      [ReservedName.scriptFilename, ReservedName.renderScript] : Hosted _) w =
        (.done (some m.name), w) := by
    unfold Resolver.callerIn
    rw [hscript, Run.bind_of_done (Run.pure_apply _ _), Option.bind_some,
      r.pathOf_of_hasModule hm habsolute]
    rfl
  unfold Resolver.lookupContext
  rw [Run.bind_of_done hcaller, htype, Run.bind_of_done hdriver]
  rfl

/-- **A module's `use` asks from the module,** whoever calls it and when. -/
theorem useModules_eq_useFrom {r : Resolver} (hm : r.repository.HasModule m)
    (habsolute : Path.isAbsolute m.name.toList = true) (h : site.globals = m.bindingsFrom globals)
    {w : World} (hw : ∀ e, w.keptEnvironment? site.environment = some e → e.resolver = r)
    (machine : Machine) (dependencies : List String) (callback : Ref .function) :
    site.useModules machine dependencies callback w =
      site.useFrom machine m.name globals dependencies callback w := by
  unfold useModules useFrom
  -- both ask for the environment first, and the lookup is in its repository
  cases he : w.keptEnvironment? site.environment with
  | none =>
    have hgone : site.liveEnvironment w = (.failed (.lifecycleMisuse .environmentGone), w) := by
      unfold liveEnvironment
      rw [Run.bind_of_done (Run.read_apply _ _), he]
      rfl
    rw [Run.bind_of_failed hgone, Run.bind_of_failed hgone]
  | some e =>
    obtain rfl := hw e he
    have hlive : site.liveEnvironment w = (.done e, w) := liveEnvironment_of_kept he
    rw [Run.bind_of_done hlive, Run.bind_of_done hlive, Run.bind_apply, Run.bind_apply]
    rcases site.liveContext w with ⟨context | fault | _, w₁⟩
    · obtain ⟨driverType, w₂, hdriver, hstart⟩ := lookupContext_of_hasModule hm habsolute globals w₁
      dsimp only
      rw [Run.bind_of_done hdriver, h, Run.bind_of_done hstart, Run.bind_apply, Run.bind_apply]
      rcases e.resolver.findAll ⟨some m.name, driverType⟩ dependencies w₂ with ⟨_ | _ | _, w₃⟩
      · dsimp only
        rw [script_eq h, Run.bind_of_done (Run.pure_apply _ _)]
        simp only [runAll_bindingsFrom machine h]
      · rfl
      · rfl
    · rfl
    · rfl

/-- So does every call of it that names dependencies. -/
theorem apply_eq_useFrom {r : Resolver} (hm : r.repository.HasModule m)
    (habsolute : Path.isAbsolute m.name.toList = true) (h : site.globals = m.bindingsFrom globals)
    {w w' : World} (hw : ∀ e, w.keptEnvironment? site.environment = some e → e.resolver = r)
    (machine : Machine) {d : Value} {f : Ref .function} {rest : List Value}
    {arguments : Array Value} {names : List String}
    (hargs : arguments.toList = d :: .function f :: rest)
    (hnames : dependencyNames d w = (.done names, w')) (hne : names ≠ []) :
    site.apply machine arguments w = site.useFrom machine m.name globals names f w' := by
  have hsame : World.SameShared w w' :=
    ((dependencyNames_quiet d).of_eq (r := .ok names) hnames).toSameShared
  have hw' : ∀ e, w'.keptEnvironment? site.environment = some e → e.resolver = r := by
    rw [World.keptEnvironment?, World.environment?, hsame.environments]
    exact hw
  rw [← useModules_eq_useFrom hm habsolute h hw']
  unfold apply
  rw [hargs]
  change (dependencyNames d >>= fun names => _) w = _
  rw [Run.bind_of_done hnames]
  cases names with
  | nil => exact absurd rfl hne
  | cons => rfl

end UseSite

/-! ### What a module is given -/

/-- Of two names under which a module is run, what it inherits does not matter. -/
theorem Machine.evaluateModule_congr (machine : Machine) {b b' : Bindings} {source : ModuleSource}
    (h : source.bindingsFrom b = source.bindingsFrom b') (e : Ref .environment) (c : Ref .context)
    (arguments : Bindings) (then_ : Listener) :
    machine.evaluateModule e c source b arguments then_ =
      machine.evaluateModule e c source b' arguments then_ := by
  have hbindings : ∀ (x : Environment) (exports : Exports),
      (x.moduleBindings e c source b arguments exports : Hosted _) =
        x.moduleBindings e c source b' arguments exports := fun x exports => by
    unfold Environment.moduleBindings
    rw [h]
  unfold evaluateModule Environment.moduleValue
  simp only [hbindings]

/-- The names that every module of a request is given beside those of the render. -/
def ModuleProvider.moduleNames : List String :=
  [Timer.immediate.name, Timer.timeout.name, "module", Exports.key, "console", "use"]

/-- **A module is given the names of the render** with its own path, and a `use` that remembers
these. -/
theorem Environment.moduleBindings_timing {x : Environment} (hx : x.providers = [.timing])
    (e : Ref .environment) (c : Ref .context) (source : ModuleSource)
    (globals arguments : Bindings) (exports : Exports) (w : World) :
    ∃ b w' f this,
      (x.moduleBindings e c source globals arguments exports : Hosted _) w = (.done b, w') ∧
      b.entries.get? "use" = some (.value (.function f)) ∧
      w'.functions.get? f = some (.use ⟨e, c, source.bindingsFrom globals, this⟩) ∧
      b.entries.get? ReservedName.scriptFilename = some (.value (.text source.name)) ∧
      ∀ name, name ≠ ReservedName.scriptFilename → name ∉ ModuleProvider.moduleNames →
        b.entries.get? name = globals.entries.get? name := by
  have hextended : ∃ immediate timeout w₁,
      ((source.bindingsFrom globals).extendProvided c x.providers : Hosted _) w =
        (.done ((((source.bindingsFrom globals).putLazy Timer.immediate.name immediate).putLazy
          Timer.timeout.name timeout)), w₁) := by
    rw [hx]
    exact ⟨_, _, _, rfl⟩
  obtain ⟨immediate, timeout, w₁, hextended⟩ := hextended
  have hconsole : Run.Yields (newConsole source.name : Hosted _) :=
    (Run.Harmless.newConsole source.name).yields
  have hthis : Run.Yields (arguments.toObject : Hosted _) := (Run.Harmless.toObject arguments).yields
  obtain ⟨console, w₂, hconsole⟩ := hconsole w₁
  obtain ⟨this, w₃, hthis⟩ := hthis w₂
  -- only the names that every module is given hide inherited ones
  have hinherited : ∀ (b : Bindings) (i t : Ref .cell) (m x console use : Value) (h : Ref .heap)
      (name : String), name ∉ ModuleProvider.moduleNames →
      ((((((b.putLazy Timer.immediate.name i).putLazy Timer.timeout.name t).put "module" m).put
        Exports.key x).put "console" console).put "use" use |>.onHeap h).entries.get? name =
          b.entries.get? name := by
    intro b i t m x console use h name hname
    simp only [ModuleProvider.moduleNames, List.mem_cons, List.not_mem_nil, or_false, not_or]
      at hname
    obtain ⟨h₁, h₂, h₃, h₄, h₅, h₆⟩ := hname
    simp only [Bindings.put, Bindings.putLazy, Bindings.onHeap, OrderedMap.get?_insert, Ne.symm h₁,
      Ne.symm h₂, Ne.symm h₃, Ne.symm h₄, Ne.symm h₅, Ne.symm h₆, if_false]
  unfold moduleBindings
  rw [Run.bind_of_done hextended, Run.bind_of_done hconsole, Run.bind_of_done hthis]
  refine ⟨_, _, _, this, rfl, (OrderedMap.get?_insert ..).trans (if_pos rfl),
    Table.get?_add_fresh .., ?_, fun name hfilename hname => ?_⟩
  · refine (hinherited _ _ _ _ _ _ _ _ _ (by decide)).trans ?_
    exact (OrderedMap.get?_insert ..).trans (if_pos rfl)
  · refine (hinherited _ _ _ _ _ _ _ _ _ hname).trans ?_
    exact (OrderedMap.get?_insert ..).trans (if_neg (Ne.symm hfilename))

/-! ### What there is in a render -/

/-- **What is admitted in a render** that runs in an environment, on a context and under the given
names: each `use` is that of a module that the repository holds, and so is each task. -/
def Terms.ofRender (r : Resolver) (e : Ref .environment) (c : Ref .context) (globals : Bindings) :
    Terms where
  sites site := site.environment = e → site.context = c ∧
    ∃ m, r.repository.HasModule m ∧ site.globals = m.bindingsFrom globals
  modules e' c' source b := e' = e → c' = c ∧ r.repository.HasModule source ∧
    source.bindingsFrom b = source.bindingsFrom globals
  environments e' x := e' = e → x.resolver = r ∧ x.providers = [.timing]
  names _ := True

/-- What is admitted if no one knows an environment. -/
def Terms.without (e : Ref .environment) : Terms where
  sites site := site.environment ≠ e
  modules e' _ _ _ := e' ≠ e
  environments _ _ := True
  names _ := True

/-- **No one knows an environment that does not exist yet.** -/
def World.NoneForeseen (w : World) : Prop :=
  ∀ e : Ref .environment, w.environments.size ≤ e.row → (Terms.without e).Holds w

theorem World.noneForeseen_empty : World.empty.NoneForeseen := fun _ _ =>
  ⟨fun f x h => by simp [World.empty, Table.get?] at h, fun c t h => by
    simp [World.empty, World.waitingTasks, World.context?, Table.get?] at h,
    fun c t h => absurd h List.not_mem_nil, fun _ _ _ => trivial⟩

namespace Terms

variable {r : Resolver} {e : Ref .environment} {c : Ref .context} {globals : Bindings} {w : World}

/-- What a module asks for in a render is found in the repository of the render, and runs under its
names. -/
theorem ofRender_coherent : (ofRender r e c globals).Coherent where
  identifier _ := trivial
  load := by
    -- of the names that the asking module had, its own path is written over
    rintro site x start dependency source hsite hx hfound rfl
    obtain ⟨hc, m, -, hglobals⟩ := hsite rfl
    obtain ⟨rfl, -⟩ := hx rfl
    refine ⟨hc, Resolver.hasModule_of_resolve hfound, ?_⟩
    rw [ModuleSource.bindingsFrom_bindingsFrom, hglobals, ModuleSource.bindingsFrom_bindingsFrom]
  install := by
    rintro e' c' source b this h rfl
    obtain ⟨hc, hm, hb⟩ := h rfl
    exact ⟨hc, source, hm, hb⟩

theorem ofRender_lasting : (ofRender r e c globals).Lasting := fun h he => h he

theorem without_coherent : (without e).Coherent where
  identifier _ := trivial
  load hsite _ _ := hsite
  install _ h := h

theorem without_lasting : (without e).Lasting := fun _ => trivial

/-- Where no one knows the environment, all that there is, is admitted. -/
theorem Holds.ofRender (h : (without e).Holds w) (he : w.environment? e = none) :
    (ofRender r e c globals).Holds w where
  functions f x hx := by
    cases x with
    | closure => exact .inl fun _ => trivial
    | use site => exact fun heq => absurd heq (h.functions f _ hx)
    | _ => trivial
  waiting c' t ht := by
    cases t with
    | module => exact fun heq => absurd heq (h.waiting c' _ ht)
    | _ => trivial
  started c' t ht := by
    cases t with
    | module => exact fun heq => absurd heq (h.started c' _ ht)
    | _ => trivial
  environments e' x hx heq := by
    rw [heq, he] at hx
    cases hx

end Terms

/-! ### Renders -/

/-- A task that waits somewhere, or was started. -/
def World.HasTask (w : World) (t : Task) : Prop :=
  ∃ c, t ∈ w.waitingTasks c ∨ .queue c (.started t) ∈ w.history

/-- **In a world, dependencies are looked up from the module that asks,** as far as a render is
concerned that runs in the environment `e`, on the context `c` and under the names `globals`. -/
structure World.AsksFromOwnPath (w : World) (r : Resolver) (e : Ref .environment)
    (c : Ref .context) (globals : Bindings) : Prop where
  /-- Each `use` is that of a module of the repository, also in a world `u` that came before. If the
  module has an absolute path, then each call in `u` that names dependencies looks them up from it,
  whoever makes the call; and what is found runs as the first module did. -/
  uses : ∀ u : World, u.Retains w → ∀ f site, u.functions.get? f = some (.use site) →
    site.environment = e →
    ∃ m, r.repository.HasModule m ∧ site.context = c ∧ site.globals = m.bindingsFrom globals ∧
      (Path.isAbsolute m.name.toList = true → ∀ machine d callback rest arguments names u',
        arguments.toList = d :: .function callback :: rest →
        UseSite.dependencyNames d u = (.done names, u') → names ≠ [] →
        site.apply machine arguments u = site.useFrom machine m.name globals names callback u')
  /-- Each module that waits or was started is one of the repository, and it runs under the names of
  the render, whatever the module had that asked for it. -/
  tasks : ∀ c' source b arguments then_, w.HasTask (.module e c' source b arguments then_) →
    c' = c ∧ r.repository.HasModule source ∧ ∀ machine : Machine,
      machine.runTask (.module e c' source b arguments then_) =
        machine.runTask (.module e c source globals arguments then_)
  /-- What a module is given that runs under these names: its own path, a `use` that is its own, and
  otherwise, but for what every module gets, the names of the render. -/
  given : ∀ x, w.environment? e = some x → ∀ source arguments exports w₁, ∃ b w₂ f this,
    (x.moduleBindings e c source globals arguments exports : Hosted _) w₁ = (.done b, w₂) ∧
    b.entries.get? "use" = some (.value (.function f)) ∧
    w₂.functions.get? f = some (.use ⟨e, c, source.bindingsFrom globals, this⟩) ∧
    b.entries.get? ReservedName.scriptFilename = some (.value (.text source.name)) ∧
    ∀ name, name ≠ ReservedName.scriptFilename → name ∉ ModuleProvider.moduleNames →
      b.entries.get? name = globals.entries.get? name

/-- What is admitted in a render asks from its own path. -/
theorem Terms.Holds.asksFromOwnPath {r : Resolver} {e : Ref .environment} {c : Ref .context}
    {globals : Bindings} {w : World} (h : (Terms.ofRender r e c globals).Holds w) :
    w.AsksFromOwnPath r e c globals where
  uses u hu f site hf he := by
    obtain ⟨hc, m, hm, hglobals⟩ := h.functions f _ (hu.functions f _ hf) he
    refine ⟨m, hm, hc, hglobals, fun habsolute machine d callback rest arguments names u' =>
      UseSite.apply_eq_useFrom hm habsolute hglobals (fun x hx => ?_) machine⟩
    rw [World.keptEnvironment?, World.environment?, ← hu.environments, he] at hx
    exact (h.environments e x (Option.filter_eq_some_iff.1 hx).1 rfl).1
  tasks c' source b arguments then_ := by
    rintro ⟨at_, ht⟩
    have htask : (Terms.ofRender r e c globals).task (.module e c' source b arguments then_) :=
      ht.elim (h.waiting at_ _) (h.started at_ _)
    obtain ⟨rfl, hm, hb⟩ := htask rfl
    exact ⟨rfl, hm, fun machine => machine.evaluateModule_congr hb e c' arguments then_⟩
  given x hx source :=
    Environment.moduleBindings_timing (h.environments e x hx rfl).2 e c source globals

namespace ModuleProvider

/-- A request changes the world as its run does, or not at all. -/
theorem provide_reaches (p : ModuleProvider) (machine : Machine) (identifier : String)
    (globals arguments : Bindings) (w : World) :
    (p.provide machine identifier globals arguments w).2 = w ∨
      ∃ engine, (p.provide machine identifier globals arguments w).2 =
        (p.run machine engine identifier globals arguments w).2 := by
  unfold provide
  split
  · exact .inl rfl
  · cases p.engines.get? p.configuration.engineName with
    | none => exact .inl rfl
    | some engine =>
      refine .inr ⟨engine, ?_⟩
      dsimp only
      rw [Run.bind_apply]
      unfold Run.attempt
      rcases p.run machine engine identifier globals arguments w with ⟨_ | _ | _, w'⟩ <;> rfl

/-- **The worlds that a request may come through** which begins in `w`: once its environment is
open, whatever is asked for in it, whichever task runs next, and whatever else is called, told or
drained, with any fuel. -/
inductive Course (p : ModuleProvider) (globals : Bindings) (w : World) : World → Prop
  | opened (engine : Engine) : Course p globals w (w.entered (p.environment engine))
  | asked {v : World} (k : Nat) (identifier : String) (arguments : Bindings) :
      Course p globals w v →
      Course p globals w (p.inside identifier globals arguments (.ofFuel k) w v).2
  | ran {v : World} (k : Nat) (t : Task) : v.HasTask t → Course p globals w v →
      Course p globals w ((Machine.ofFuel k).runTask t v).2
  | called {v : World} (k : Nat) (f : Ref .function) (this : Value) (arguments : Array Value) :
      Course p globals w v → Course p globals w ((Machine.ofFuel k).call f this arguments v).2
  | told {v : World} (k : Nat) (l : Listener) (x : Value) : Course p globals w v →
      Course p globals w ((Machine.ofFuel k).notify l x v).2
  | drained {v : World} (k : Nat) (c : Ref .context) : Course p globals w v →
      Course p globals w ((Machine.ofFuel k).drain c v).2

section

variable {p : ModuleProvider} {globals : Bindings} {w : World}

/-- Before a request begins, all that there is, is admitted in it. -/
theorem holds_of_noneForeseen (hw : w.NoneForeseen) (r : Resolver) (c : Ref .context) :
    (Terms.ofRender r w.environments.fresh c globals).Holds w :=
  (hw w.environments.fresh (Nat.le_refl _)).ofRender w.environments.get?_fresh

/-- The module that a request asks for is one of the repository, and its names are those given. -/
theorem modules_of_resolve {e : Ref .environment} {c : Ref .context} {start : LookupContext}
    {identifier : String} {source : ModuleSource}
    (h : (p.resolver.resolve start identifier).value = .ok source) :
    (Terms.ofRender p.resolver e c globals).modules e c source globals :=
  fun _ => ⟨rfl, Resolver.hasModule_of_resolve h, rfl⟩

/-- What is admitted in a request is kept up in its course. -/
theorem Course.holds {v : World} (h : p.Course globals w v) (hw : w.NoneForeseen) :
    (Terms.ofRender p.resolver w.environments.fresh w.contexts.fresh globals).Holds v := by
  have C : Conduct (Terms.ofRender p.resolver w.environments.fresh w.contexts.fresh globals)
      fun x => Run.Upholds _ x := Terms.ofRender_coherent.conduct
  have hmachine (k : Nat) := Machine.ofFuel_conducts C k
  -- whatever comes next, it is something that a machine does, and that keeps up what is admitted
  induction h with
  | opened engine =>
    have hadmitted : (Terms.ofRender p.resolver w.environments.fresh w.contexts.fresh
      globals).environments w.environments.fresh (p.environment engine) := fun _ => ⟨rfl, rfl⟩
    exact ((holds_of_noneForeseen hw _ _).entered Terms.ofRender_lasting hadmitted).1
  | asked k identifier arguments _ ih =>
    exact (inside_upholds Terms.ofRender_coherent (hmachine k)
      fun _ _ => modules_of_resolve).holds ih
  | ran k t ht _ ih =>
    obtain ⟨c, ht⟩ := ht
    exact (C.runTask (hmachine k) (ht.elim (ih.waiting c t) (ih.started c t))).holds ih
  | called k f this arguments _ ih => exact ((hmachine k).call f this arguments).holds ih
  | told k l x _ ih => exact ((hmachine k).notify l x).holds ih
  | drained k c _ ih => exact ((hmachine k).drain c).holds ih

/-- A request that is over has made one environment, and has kept up what is admitted. -/
theorem run_holdsFor (hw : w.NoneForeseen) (engine : Engine) (identifier : String)
    (arguments : Bindings) (n : Nat) :
    (Terms.ofRender p.resolver w.environments.fresh w.contexts.fresh globals).HoldsFor
      (w.environments.size + 1) (p.run (.ofFuel n) engine identifier globals arguments w).2 :=
  run_holds Terms.ofRender_coherent Terms.ofRender_lasting n (holds_of_noneForeseen hw _ _)
    (fun _ => ⟨rfl, rfl⟩) fun _ _ => modules_of_resolve

/-- After a request no one knows an environment that does not exist yet. -/
theorem run_noneForeseen (hw : w.NoneForeseen) (engine : Engine) (identifier : String)
    (arguments : Bindings) (n : Nat) :
    (p.run (.ofFuel n) engine identifier globals arguments w).2.NoneForeseen := by
  intro later hlater
  -- the request has made one environment, and it is none of those that are still to come
  rw [(run_holdsFor hw engine identifier arguments n).2] at hlater
  have hne : w.environments.fresh ≠ later := fun h => absurd (h ▸ hlater) (Nat.not_succ_le_self _)
  exact (run_holds Terms.without_coherent Terms.without_lasting n
    (hw later (Nat.le_of_succ_le hlater)) trivial fun _ _ _ => hne).1

end

/-- **In every render, dependencies are looked up relative to the module whose code asks:** wherever
it comes, in whatever order its tasks run, and when it is over, however it ends. A run keeps the
functions that there are (`Run.Upholds`), so what is said of the end of a task is said of all that
was called in it. The same can then be said of the next render. -/
theorem render_asks_from_own_path (p : ModuleProvider) (globals : Bindings) (w : World)
    (hw : w.NoneForeseen) :
    (∀ v, p.Course globals w v →
      v.AsksFromOwnPath p.resolver w.environments.fresh w.contexts.fresh globals) ∧
    ∀ n identifier arguments,
      (p.provide (.ofFuel n) identifier globals arguments w).2.AsksFromOwnPath p.resolver
        w.environments.fresh w.contexts.fresh globals ∧
      (p.provide (.ofFuel n) identifier globals arguments w).2.NoneForeseen := by
  refine ⟨fun v hv => (hv.holds hw).asksFromOwnPath, fun n identifier arguments => ?_⟩
  rcases p.provide_reaches (.ofFuel n) identifier globals arguments w with hsame | ⟨engine, hrun⟩
  · rw [hsame]
    exact ⟨(holds_of_noneForeseen hw _ _).asksFromOwnPath, hw⟩
  · rw [hrun]
    exact ⟨(run_holdsFor hw engine identifier arguments n).1.asksFromOwnPath,
      run_noneForeseen hw engine identifier arguments n⟩

/-- A page that gets hold of the `use` of a module in a folder, and asks for a name that there is
next to the page as well. -/
def ofLentUse : ModuleProvider where
  repository := ⟨.memory (Memory.empty
    |>.addScript "/page.js"
      "use('lib/a.js', function (f) \x7b return f('b.js', function (b) \x7b return b; \x7d); \x7d)"
    |>.addScript "/lib/a.js" "use"
    |>.addScript "/lib/b.js" "'next to the module'"
    |>.addScript "/b.js" "'next to the page'"), []⟩

/-- The paths from which the functions `use` ask that there are, in order. -/
def askingPaths (w : World) : List String :=
  w.functions.rows.toList.filterMap fun
    | .use site =>
      match site.globals.entries.get? ReservedName.scriptFilename with
      | some (.value (.text path)) => some path
      | _ => none
    | _ => none

/-- It asks from the module, though it is the page that calls it, and in another task. -/
theorem render_asks_from_own_path_for_lent_use : World.empty.NoneForeseen ∧
    (ofLentUse.provide (.ofFuel 24) "/page.js" {} {} .empty).1.value?.bind textOf? =
      some "next to the module" ∧
    askingPaths (ofLentUse.provide (.ofFuel 24) "/page.js" {} {} .empty).2 =
      ["/page.js", "/lib/a.js", "/lib/b.js"] ∧
    (ofLentUse.provide (.ofFuel 24) "/page.js" {} {} .empty).2.AsksFromOwnPath
      ofLentUse.resolver ⟨0⟩ ⟨0⟩ {} := by
  have hshown : (fun r : Outcome HostError Provision × World =>
      (r.1.value?.bind textOf?, askingPaths r.2))
        (ofLentUse.provide (.ofFuel 24) "/page.js" {} {} .empty) =
      (some "next to the module", ["/page.js", "/lib/a.js", "/lib/b.js"]) := by decide +kernel
  obtain ⟨hvalue, hpaths⟩ := Prod.mk.inj hshown
  obtain ⟨hasks, -⟩ := (render_asks_from_own_path ofLentUse {} .empty World.noneForeseen_empty).2 24
    "/page.js" {}
  exact ⟨World.noneForeseen_empty, hvalue, hpaths, hasks⟩

end ModuleProvider

end ScriptModules
