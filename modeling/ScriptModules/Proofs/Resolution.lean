import ScriptModules.Proofs.Confinement
import ScriptModules.Proofs.Supertypes

/-!
# What a dependency resolves to

The reference for module lookup is a list of paths, of which the first that something is kept under
wins. It begins with what the name itself may stand for and goes on with what it stands for next to
each of the resources that the caller and the driver of the render lead to: `Searches` says which
these are, in terms of the lineage of supertypes and of where two resources meet (`StartsAt`), and
`placesNextTo` says where a name is sought next to one of them.

The main statement, `Resolver.resolve_eq_reference`, is that a resolver follows this reference: what
it finds, that it asks for nothing behind the first hit, and that it asks for nothing at all when the
name is not that of a script. A name that begins with two dots is looked up again once it has been
taken out of the node, so that under a search path that is relative itself it lands elsewhere than
next to the node; `Resolver.relative_root_misses` is such a case.
-/

namespace ScriptModules

namespace Repository

variable (r : Repository)

/-- Where the walk along supertypes starts: at the caller's type if it inherits from the driver, at
the driver if it is the other way round, and otherwise, if both lie at one path below search paths, at
the one below the earlier search path. -/
inductive StartsAt (callerType driver : Resource) : Resource → Prop
  | callerType : r.Inherits callerType driver → StartsAt callerType driver callerType
  | driver : ¬ r.Inherits callerType driver → r.Inherits driver callerType →
      StartsAt callerType driver driver
  | overlay {i j : Nat} {relative : String} :
      ¬ r.Inherits callerType driver → ¬ r.Inherits driver callerType →
      Resolver.overlayPosition callerType.path 0 r.searchPaths = some (i, relative) →
      Resolver.overlayPosition driver.path 0 r.searchPaths = some (j, relative) →
      StartsAt callerType driver (if i < j then callerType else driver)

/-- The type of the calling script: the resource above it. -/
def callerType? (context : LookupContext) : Option Resource :=
  (context.caller.bind r.get).bind r.parent

/-- The type driving the render. -/
def driver? (context : LookupContext) : Option Resource := context.driverType.bind r.get

/-- **The resources next to which a name is sought,** in order. -/
inductive Searches (context : LookupContext) : List Resource → Prop
  /-- Nothing is known of the caller. -/
  | nowhere : r.callerType? context = none → Searches context []
  /-- The driver is unknown or does not meet the caller's type. -/
  | aside {callerType : Resource} : r.callerType? context = some callerType →
      (∀ driver, r.driver? context = some driver → ∀ start, ¬ r.StartsAt callerType driver start) →
      Searches context [callerType]
  /-- The lineage from where the two meet comes before the caller's type. -/
  | along {callerType driver start : Resource} {nodes : List Resource} :
      r.callerType? context = some callerType → r.driver? context = some driver →
      r.StartsAt callerType driver start → r.Lineage start nodes →
      Searches context (nodes ++ [callerType])

/-- The paths at which a name is sought next to a node: that of the name below the node or, if the
name leads out of the node, what that path may stand for. -/
def placesNextTo (node : Resource) (dependency : String) : List String :=
  let places := (Path.normalize (Path.join node.path dependency)).toList
  if "..".toList.isPrefixOf dependency.toList then places.flatMap r.candidates else places

/-- **The paths at which a name is sought,** the first choice first: its own, and those next to the
given nodes. -/
def places (nodes : List Resource) (dependency : String) : List String :=
  r.candidates dependency ++ nodes.flatMap (r.placesNextTo · dependency)

end Repository

/-! ### Where the walk starts -/

namespace Resolver

variable (r : Resolver)

theorem isResourceType_iff {x ancestor : Resource} (hx : r.repository.Kept x) :
    (r.isResourceType x ancestor).value = true ↔ r.repository.Inherits x ancestor := by
  rw [Outlook.value_isResourceType, Outlook.answer_isType r _ x List.not_mem_nil]
  exact (Repository.inherits_iff hx).symm

/-- Two resources of which neither is of the other's type are reconciled by the search paths they
lie below. -/
theorem reconcile_of_apart {callerType driver : Resource}
    (hunder : ¬ (r.isResourceType callerType driver).value = true)
    (habove : ¬ (r.isResourceType driver callerType).value = true) (start : Resource) :
    (r.reconcile callerType driver).value = some start ↔
      ∃ i j relative, overlayPosition callerType.path 0 r.repository.searchPaths = some (i, relative) ∧
        overlayPosition driver.path 0 r.repository.searchPaths = some (j, relative) ∧
        start = if i < j then callerType else driver := by
  unfold reconcile
  rw [Noted.value_bind, if_neg hunder, Noted.value_bind, if_neg habove]
  constructor
  · intro h
    dsimp only at h
    split at h
    · rename_i i left j right hi hj
      split at h
      · cases h
      · rename_i hsame
        obtain rfl : left = right := not_not.1 hsame
        refine ⟨i, j, left, hi, hj, ?_⟩
        split at h
        · rename_i hlt
          rw [if_pos hlt]
          exact (Option.some.inj h).symm
        · rename_i hlt
          rw [if_neg hlt]
          exact (Option.some.inj h).symm
    · cases h
  · rintro ⟨i, j, relative, hi, hj, rfl⟩
    dsimp only
    rw [hi, hj]
    dsimp only
    rw [if_neg (not_not.2 rfl)]
    split <;> rfl

/-- **The walk starts where the two resources meet.** -/
theorem reconcile_iff {callerType driver : Resource} (hcaller : r.repository.Kept callerType)
    (hdriver : r.repository.Kept driver) (start : Resource) :
    (r.reconcile callerType driver).value = some start ↔
      r.repository.StartsAt callerType driver start := by
  have hunder : (r.isResourceType callerType driver).value = true ↔ _ :=
    r.isResourceType_iff hcaller
  have habove : (r.isResourceType driver callerType).value = true ↔ _ :=
    r.isResourceType_iff hdriver
  by_cases hu : (r.isResourceType callerType driver).value = true
  · unfold reconcile
    rw [Noted.value_bind, if_pos hu]
    constructor
    · intro h
      obtain rfl := Option.some.inj h
      exact .callerType (hunder.1 hu)
    · rintro (_ | ⟨hnot, -⟩ | ⟨hnot, -, -, -⟩)
      · rfl
      · exact absurd (hunder.1 hu) hnot
      · exact absurd (hunder.1 hu) hnot
  -- the driver is compared only after the caller's type, and the search paths after both
  by_cases ha : (r.isResourceType driver callerType).value = true
  · unfold reconcile
    rw [Noted.value_bind, if_neg hu, Noted.value_bind, if_pos ha]
    constructor
    · intro h
      obtain rfl := Option.some.inj h
      exact .driver (hu ∘ hunder.2) (habove.1 ha)
    · rintro (hin | ⟨-, -⟩ | ⟨-, hnot, -, -⟩)
      · exact absurd (hunder.2 hin) hu
      · rfl
      · exact absurd (habove.1 ha) hnot
  rw [r.reconcile_of_apart hu ha]
  constructor
  · rintro ⟨i, j, relative, hi, hj, rfl⟩
    exact .overlay (hu ∘ hunder.2) (ha ∘ habove.2) hi hj
  · rintro (hin | ⟨-, hin⟩ | ⟨-, -, hi, hj⟩)
    · exact absurd (hunder.2 hin) hu
    · exact absurd (habove.2 hin) ha
    · exact ⟨_, _, _, hi, hj, rfl⟩

/-- Two resources meet in one place at most. -/
theorem startsAt_unique {callerType driver start other : Resource}
    (hcaller : r.repository.Kept callerType) (hdriver : r.repository.Kept driver)
    (h : r.repository.StartsAt callerType driver start)
    (h' : r.repository.StartsAt callerType driver other) : start = other := by
  have hstart := (r.reconcile_iff hcaller hdriver start).2 h
  exact Option.some.inj (hstart.symm.trans ((r.reconcile_iff hcaller hdriver other).2 h'))

end Resolver

/-! ### Which resources are searched -/

namespace Repository

variable {r : Repository} {context : LookupContext}

theorem kept_callerType {callerType : Resource} (h : r.callerType? context = some callerType) :
    r.Kept callerType := by
  obtain ⟨caller, -, hparent⟩ := Option.bind_eq_some_iff.1 h
  obtain ⟨path, -, hlookup⟩ := Option.bind_eq_some_iff.1 hparent
  exact kept_of_lookup hlookup

theorem kept_driver {driver : Resource} (h : r.driver? context = some driver) : r.Kept driver := by
  obtain ⟨name, -, hget⟩ := Option.bind_eq_some_iff.1 h
  exact (kept_of_get hget).1

/-- **The resources that are searched are determined.** -/
theorem Searches.unique {nodes others : List Resource} (h : r.Searches context nodes)
    (h' : r.Searches context others) : others = nodes := by
  cases h with
  | nowhere hnone =>
    cases h' with
    | nowhere => rfl
    | aside hsome => cases hnone.symm.trans hsome
    | along hsome => cases hnone.symm.trans hsome
  | @aside callerType hcaller hapart =>
    cases h' with
    | nowhere hnone => cases hcaller.symm.trans hnone
    | aside hcaller' =>
      obtain rfl := Option.some.inj (hcaller.symm.trans hcaller')
      rfl
    | along hcaller' hdriver hstart =>
      obtain rfl := Option.some.inj (hcaller.symm.trans hcaller')
      exact absurd hstart (hapart _ hdriver _)
  | @along callerType driver start nodes hcaller hdriver hstart hline =>
    cases h' with
    | nowhere hnone => cases hcaller.symm.trans hnone
    | aside hcaller' hapart =>
      obtain rfl := Option.some.inj (hcaller.symm.trans hcaller')
      exact absurd hstart (hapart _ hdriver _)
    | along hcaller' hdriver' hstart' hline' =>
      obtain rfl := Option.some.inj (hcaller.symm.trans hcaller')
      obtain rfl := Option.some.inj (hdriver.symm.trans hdriver')
      obtain rfl := Resolver.startsAt_unique ⟨r, ".js"⟩ (kept_callerType hcaller)
        (kept_driver hdriver) hstart hstart'
      rw [hline.unique hline']

/-! ### What is found next to a resource -/

/-- The paths that a name may stand for are absolute below absolute search paths. -/
theorem isAbsolute_of_mem_candidates
    (hroots : ∀ root ∈ r.searchPaths, Path.isAbsolute root.toList = true) {name path : String}
    (h : path ∈ r.candidates name) : Path.isAbsolute path.toList = true := by
  unfold candidates at h
  split at h
  · rename_i habsolute
    rw [Path.isAbsolute_normalize (Option.mem_toList.1 h)]
    exact habsolute
  · obtain ⟨root, hroot, hnormal⟩ := List.mem_filterMap.1 h
    rw [Path.isAbsolute_normalize hnormal]
    exact Path.isAbsolute_join (hroots root hroot) name

theorem isAbsolute_of_get (hroots : ∀ root ∈ r.searchPaths, Path.isAbsolute root.toList = true)
    {name : String} {x : Resource} (h : r.get name = some x) :
    Path.isAbsolute x.path.toList = true := by
  obtain ⟨path, hpath, hlookup⟩ := List.exists_of_findSome?_eq_some h
  rw [path_of_lookup hlookup]
  exact isAbsolute_of_mem_candidates hroots hpath

theorem isAbsolute_callerType
    (hroots : ∀ root ∈ r.searchPaths, Path.isAbsolute root.toList = true) {callerType : Resource}
    (h : r.callerType? context = some callerType) :
    Path.isAbsolute callerType.path.toList = true := by
  obtain ⟨caller, hcaller, hparent⟩ := Option.bind_eq_some_iff.1 h
  obtain ⟨name, -, hget⟩ := Option.bind_eq_some_iff.1 hcaller
  obtain ⟨path, hpath, hlookup⟩ := Option.bind_eq_some_iff.1 hparent
  rw [path_of_lookup hlookup]
  exact Path.isAbsolute_parent (isAbsolute_of_get hroots hget) hpath

theorem isAbsolute_driver (hroots : ∀ root ∈ r.searchPaths, Path.isAbsolute root.toList = true)
    {driver : Resource} (h : r.driver? context = some driver) :
    Path.isAbsolute driver.path.toList = true := by
  obtain ⟨name, -, hget⟩ := Option.bind_eq_some_iff.1 h
  exact isAbsolute_of_get hroots hget

/-- Two resources meet at one of the two. -/
theorem StartsAt.eq_or_eq {callerType driver start : Resource}
    (h : r.StartsAt callerType driver start) : start = callerType ∨ start = driver := by
  cases h with
  | callerType => exact .inl rfl
  | driver => exact .inr rfl
  | overlay =>
    split
    · exact .inl rfl
    · exact .inr rfl

/-- What is above a resource with an absolute path has an absolute path: it was looked up by name. -/
theorem Lineage.isAbsolute (hroots : ∀ root ∈ r.searchPaths, Path.isAbsolute root.toList = true)
    {start : Resource} {nodes : List Resource} (h : r.Lineage start nodes)
    (hstart : Path.isAbsolute start.path.toList = true) :
    ∀ node ∈ nodes, Path.isAbsolute node.path.toList = true := by
  intro node hnode
  cases leadsTo_of_mem h.head h.linked hnode with
  | refl => exact hstart
  | tail _ hlast =>
    obtain ⟨name, -, hget⟩ := Option.bind_eq_some_iff.1 hlast
    exact isAbsolute_of_get hroots hget

/-- **Below absolute search paths all resources that are searched have absolute paths.** -/
theorem Searches.isAbsolute (hroots : ∀ root ∈ r.searchPaths, Path.isAbsolute root.toList = true)
    {nodes : List Resource} (h : r.Searches context nodes) :
    ∀ node ∈ nodes, Path.isAbsolute node.path.toList = true := by
  cases h with
  | nowhere => nofun
  | @aside callerType hcaller =>
    intro node hnode
    obtain rfl := List.mem_singleton.1 hnode
    exact isAbsolute_callerType hroots hcaller
  | @along callerType driver start nodes hcaller hfound hstart hline =>
    have hbegin : Path.isAbsolute start.path.toList = true := by
      obtain rfl | rfl := hstart.eq_or_eq
      · exact isAbsolute_callerType hroots hcaller
      · exact isAbsolute_driver hroots hfound
    intro node hnode
    rcases List.mem_append.1 hnode with hnode | hnode
    · exact hline.isAbsolute hroots hbegin node hnode
    · obtain rfl := List.mem_singleton.1 hnode
      exact isAbsolute_callerType hroots hcaller

/-- **Next to an absolute path a name stands for one path** at most. -/
theorem placesNextTo_of_isAbsolute {node : Resource} (h : Path.isAbsolute node.path.toList = true)
    (dependency : String) :
    r.placesNextTo node dependency =
      (Path.normalize (Path.join node.path dependency)).toList := by
  unfold placesNextTo
  dsimp only
  split
  · cases hplace : Path.normalize (Path.join node.path dependency) with
    | none => rfl
    | some place =>
      have habsolute : Path.isAbsolute place.toList = true := by
        rw [Path.isAbsolute_normalize hplace]
        exact Path.isAbsolute_join h dependency
      rw [Option.toList_some, List.flatMap_singleton, candidates, if_pos habsolute,
        Path.normalize_normal hplace, Option.toList_some]
  · rfl

end Repository

namespace Resolver

variable (r : Resolver)

theorem findSome?_flatMap {α β γ : Type} (xs : List α) (f : α → List β) (g : β → Option γ) :
    (xs.flatMap f).findSome? g = xs.findSome? fun x => (f x).findSome? g := by
  induction xs with
  | nil => rfl
  | cons x xs ih =>
    rw [List.flatMap_cons, List.findSome?_append, List.findSome?_cons, ih]
    cases (f x).findSome? g <;> rfl

/-- What is found next to a node is what is kept first at the places there. -/
theorem lookupFrom_eq (node : Resource) (dependency : String) :
    r.lookupFrom node dependency =
      (r.repository.placesNextTo node dependency).findSome? r.repository.lookup := by
  unfold lookupFrom Repository.placesNextTo
  dsimp only
  split
  · rw [findSome?_flatMap]
    cases Path.normalize (Path.join node.path dependency) with
    | none => rfl
    | some place => exact (List.findSome?_singleton ..).symm
  · unfold Repository.child
    cases Path.normalize (Path.join node.path dependency) with
    | none => rfl
    | some place => exact (List.findSome?_singleton ..).symm

/-- What the walk along supertypes finds. -/
theorem value_walkHierarchy {start : Resource} {nodes : List Resource}
    (h : r.repository.Lineage start nodes) (dependency : String) :
    (r.walkHierarchy start dependency).value = nodes.findSome? (r.lookupFrom · dependency) := by
  rw [walkHierarchy, Outlook.value_lookupAlong,
    (r.repository.superChain_lineage start).unique h]

/-- **What is found through the caller is what is found next to the first of the resources that are
searched.** -/
theorem lookupByCaller_eq (context : LookupContext) (dependency : String) :
    ∃ nodes, r.repository.Searches context nodes ∧
      (r.lookupByCaller context dependency).value =
        nodes.findSome? (r.lookupFrom · dependency) := by
  cases htype : r.repository.callerType? context with
  | none =>
    refine ⟨[], .nowhere htype, ?_⟩
    unfold lookupByCaller
    unfold Repository.callerType? at htype
    cases hcaller : context.caller.bind r.repository.get with
    | none => rfl
    | some caller =>
      rw [hcaller] at htype
      have hparent : r.repository.parent caller = none := htype
      dsimp only
      rw [hparent]
      rfl
  | some callerType =>
    obtain ⟨caller, hcaller, hparent⟩ := Option.bind_eq_some_iff.1 htype
    have hcallerKept := Repository.kept_callerType htype
    -- the caller's type is where the lookup falls back to
    have hback : (r.lookupByCaller context dependency).value =
        (r.lookupByDriver callerType (r.repository.driver? context) dependency).value.or
          (r.lookupFrom callerType dependency) := by
      unfold lookupByCaller
      rw [hcaller]
      dsimp only
      rw [hparent]
      dsimp only
      rw [Noted.value_bind]
      unfold Repository.driver?
      cases (r.lookupByDriver callerType (context.driverType.bind r.repository.get)
        dependency).value <;> rfl
    rw [hback]
    unfold lookupByDriver
    cases hdriver : r.repository.driver? context with
    | none =>
      refine ⟨[callerType], .aside htype ?_, (List.findSome?_singleton ..).symm⟩
      intro driver hsome
      cases hdriver.symm.trans hsome
    | some driver =>
      have hmeet := r.reconcile_iff hcallerKept (Repository.kept_driver hdriver)
      dsimp only
      rw [Noted.value_bind]
      cases hstart : (r.reconcile callerType driver).value with
      | none =>
        refine ⟨[callerType], .aside htype ?_, (List.findSome?_singleton ..).symm⟩
        intro driver' hsome start hmeets
        obtain rfl := Option.some.inj (hdriver.symm.trans hsome)
        cases hstart.symm.trans ((hmeet start).2 hmeets)
      | some start =>
        have hline := r.repository.superChain_lineage start
        refine ⟨_, .along htype hdriver ((hmeet start).1 hstart) hline, ?_⟩
        dsimp only
        rw [r.value_walkHierarchy hline, List.findSome?_append, List.findSome?_singleton]

/-- **What a dependency names is what is kept first at the places where it is sought.** -/
theorem locate_eq (context : LookupContext) (dependency : String) :
    ∃ nodes, r.repository.Searches context nodes ∧
      (r.locate context dependency).value =
        (r.repository.places nodes dependency).findSome? r.repository.lookup := by
  obtain ⟨nodes, hnodes, hvalue⟩ := r.lookupByCaller_eq context dependency
  refine ⟨nodes, hnodes, ?_⟩
  have hnext : nodes.findSome? (r.lookupFrom · dependency) =
      (nodes.flatMap (r.repository.placesNextTo · dependency)).findSome? r.repository.lookup := by
    rw [findSome?_flatMap]
    exact congrArg (nodes.findSome? ·) (funext fun node => r.lookupFrom_eq node dependency)
  rw [Repository.places, List.findSome?_append, ← hnext, ← hvalue]
  unfold locate Repository.get
  cases (r.repository.candidates dependency).findSome? r.repository.lookup <;> rfl

end Resolver

/-! ### The last question -/

/-- An inquiry that ends with its first hit. -/
def Inquiry.Stops (lookup : String → Option Resource) (x : Inquiry (Option Resource)) : Prop :=
  ∀ found, x.answer lookup = some found → (x.asked lookup).getLast? = some found.path

namespace Inquiry.Stops

variable {α : Type} {lookup : String → Option Resource}

theorem none : Stops lookup (pure none) := nofun

/-- Going on to an inquiry that stops. -/
theorem after (x : Inquiry α) {f : α → Inquiry (Option Resource)}
    (h : Stops lookup (f (x.answer lookup))) : Stops lookup (x >>= f) := by
  intro found hfound
  rw [answer_bind] at hfound
  rw [asked_bind, List.getLast?_append, h found hfound, Option.some_or]

/-- Going on only after a miss. -/
theorem orElse {x : Inquiry (Option Resource)} {f : Option Resource → Inquiry (Option Resource)}
    (hx : Stops lookup x) (hhit : ∀ found, f (some found) = pure (some found))
    (hmiss : Stops lookup (f .none)) : Stops lookup (x >>= f) := by
  cases hanswer : x.answer lookup with
  | none => exact .after x (hanswer ▸ hmiss)
  | some hit =>
    intro found hfound
    rw [answer_bind, hanswer, hhit] at hfound
    obtain rfl := Option.some.inj hfound
    rw [asked_bind, hanswer, hhit]
    exact (congrArg List.getLast? (List.append_nil _)).trans (hx hit hanswer)

theorem at? (hlookup : Bears lookup) (path : Option String) :
    Stops lookup (Inquiry.at? path) := by
  cases path with
  | none => exact .none
  | some path =>
    intro found hfound
    exact congrArg some (hlookup path found hfound).symm

theorem first (hlookup : Bears lookup) (paths : List (Option String)) :
    Stops lookup (Inquiry.first paths) := by
  induction paths with
  | nil => exact .none
  | cons path rest ih => exact .orElse (at? hlookup path) (fun _ => rfl) ih

end Inquiry.Stops

namespace Outlook

open Inquiry

variable (o : Outlook) {lookup : String → Option Resource}

theorem get_stops (hlookup : Bears lookup) (path : String) : Stops lookup (o.get path) := by
  unfold get
  split
  · exact .at? hlookup _
  · exact .first hlookup _

theorem lookupFrom_stops (hlookup : Bears lookup) (node : Resource) (dependency : String) :
    Stops lookup (o.lookupFrom node dependency) := by
  unfold lookupFrom
  split
  · cases Path.normalize (Path.join node.path dependency) with
    | none => exact .none
    | some path => exact o.get_stops hlookup path
  · exact .at? hlookup _

theorem walk_stops (hlookup : Bears lookup) (dependency : String) (reach : Nat)
    (visited : List String) (x : Resource) :
    Stops lookup (o.walk dependency reach visited x) := by
  induction reach generalizing visited x with
  | zero => exact .none
  | succ reach ih =>
    unfold walk
    split
    · exact .none
    · refine .orElse (o.lookupFrom_stops hlookup x dependency) (fun _ => rfl) (.after _ ?_)
      split
      · exact ih _ _
      · exact .none

theorem byDriver_stops (hlookup : Bears lookup) (callerType : Resource) (driver : Option Resource)
    (dependency : String) : Stops lookup (o.byDriver callerType driver dependency) := by
  cases driver with
  | none => exact .none
  | some driver =>
    refine .after _ ?_
    split
    · exact o.walk_stops hlookup dependency o.reach [] _
    · exact .none

/-- **The inquiry for what a dependency names stops at the first hit.** -/
theorem locate_stops (hlookup : Bears lookup) (context : LookupContext) (dependency : String) :
    Stops lookup (o.locate context dependency) := by
  refine .orElse (o.get_stops hlookup dependency) (fun _ => rfl) (.after _ ?_)
  split
  · exact .none
  · refine .after _ ?_
    split
    · exact .none
    · exact .after _ (.orElse (o.byDriver_stops hlookup _ _ dependency) (fun _ => rfl)
        (o.lookupFrom_stops hlookup _ dependency))

/-- The inquiry for a module asks what the inquiry for its resource does. -/
theorem asked_resolve {dependency : String}
    (hname : Resolver.isScriptName o.extension dependency = true) (context : LookupContext) :
    (o.resolve context dependency).asked lookup = (o.locate context dependency).asked lookup := by
  unfold resolve
  rw [if_neg (not_not.2 hname), asked_bind]
  cases (o.locate context dependency).answer lookup with
  | none => exact List.append_nil _
  | some found =>
    dsimp only
    split <;> exact List.append_nil _

end Outlook

/-! ### The reference -/

namespace Resolver

/-- What is answered when this is what was found for a dependency. -/
def answerFor (dependency : String) : Option Resource → Except HostError ModuleSource
  | none => .error (.dependencyNotFound dependency)
  | some found =>
    match found.content with
    | some content => .ok ⟨found.path, content⟩
    | none => .error (.dependencyUnreadable dependency)

variable {dependency : String} {first : Option Resource}

theorem answerFor_eq_notFound :
    answerFor dependency first = .error (.dependencyNotFound dependency) ↔ first = none := by
  rcases first with _ | ⟨path, superType, _ | content⟩
  · exact iff_of_true rfl rfl
  · exact iff_of_false nofun nofun
  · exact iff_of_false nofun nofun

theorem answerFor_eq_unreadable :
    answerFor dependency first = .error (.dependencyUnreadable dependency) ↔
      ∃ found, first = some found ∧ found.content = none := by
  rcases first with _ | ⟨path, superType, _ | content⟩
  · exact iff_of_false nofun nofun
  · exact iff_of_true rfl ⟨_, rfl, rfl⟩
  · refine iff_of_false nofun ?_
    rintro ⟨found, hfound, hcontent⟩
    obtain rfl := Option.some.inj hfound
    cases hcontent

theorem answerFor_eq_ok {source : ModuleSource} :
    answerFor dependency first = .ok source ↔
      ∃ found, first = some found ∧ found.path = source.name ∧
        found.content = some source.content := by
  constructor
  · intro h
    rcases first with _ | ⟨path, superType, _ | content⟩
    · cases h
    · cases h
    · obtain rfl := Except.ok.inj h
      exact ⟨_, rfl, rfl, rfl⟩
  · rintro ⟨found, rfl, hpath, hcontent⟩
    unfold answerFor
    dsimp only
    rw [hcontent, hpath]

variable (r : Resolver)

/-- The answer for the name of a script is about what the name was located at. -/
theorem value_resolve (hname : isScriptName r.extension dependency = true)
    (context : LookupContext) :
    (r.resolve context dependency).value =
      answerFor dependency (r.locate context dependency).value := by
  unfold resolve answerFor
  rw [if_neg (not_not.2 hname), Noted.value_bind]
  cases (r.locate context dependency).value with
  | none => rfl
  | some found =>
    dsimp only
    rw [Noted.value_bind]
    cases found.content <;> rfl

end Resolver

/-- **A resolver follows its reference.** A name without the ending of scripts is rejected before
anything is asked for. For any other name it is determined next to which resources it is sought, and
the answer is about what is kept first at the places that this makes: there is nothing, it has no
text, or it is the module with its path and text. The last question is the one for it. Below absolute
search paths, a name next to a resource stands for one path at most, that of the name taken relative
to the resource. -/
theorem Resolver.resolve_eq_reference (r : Resolver) (context : LookupContext)
    (dependency : String) :
    (Resolver.isScriptName r.extension dependency = false →
      r.resolve context dependency = pure (.error (.unsupportedDependency dependency)) ∧
      (r.outlook.resolve context dependency).asked r.repository.lookup = []) ∧
    (Resolver.isScriptName r.extension dependency = true →
      ∃ nodes, (∀ others, r.repository.Searches context others ↔ others = nodes) ∧
        let first := (r.repository.places nodes dependency).findSome? r.repository.lookup
        let answer := (r.resolve context dependency).value
        (answer = .error (.dependencyNotFound dependency) ↔
          ∀ path ∈ r.repository.places nodes dependency, r.repository.lookup path = none) ∧
        (answer = .error (.dependencyUnreadable dependency) ↔
          ∃ found, first = some found ∧ found.content = none) ∧
        (∀ source, answer = .ok source ↔
          ∃ found, first = some found ∧ found.path = source.name ∧
            found.content = some source.content) ∧
        (∀ found, first = some found →
          ((r.outlook.resolve context dependency).asked r.repository.lookup).getLast? =
            some found.path) ∧
        ((∀ root ∈ r.repository.searchPaths, Path.isAbsolute root.toList = true) →
          ∀ node ∈ nodes, r.repository.placesNextTo node dependency =
            (Path.normalize (Path.join node.path dependency)).toList)) := by
  constructor
  · intro hname
    have hnot : ¬ Resolver.isScriptName r.extension dependency = true := by rw [hname]; decide
    exact ⟨if_pos hnot, congrArg (Inquiry.asked r.repository.lookup) (if_pos hnot)⟩
  · intro hname
    obtain ⟨nodes, hnodes, hlocate⟩ := r.locate_eq context dependency
    refine ⟨nodes, fun others => ⟨hnodes.unique, fun h => h ▸ hnodes⟩, ?_⟩
    dsimp only
    rw [r.value_resolve hname, hlocate, ← List.findSome?_eq_none_iff]
    refine ⟨answerFor_eq_notFound, answerFor_eq_unreadable, fun _ => answerFor_eq_ok, ?_, ?_⟩
    · intro found hfound
      rw [Outlook.asked_resolve r.outlook hname]
      refine r.outlook.locate_stops (fun _ _ => Repository.path_of_lookup) context dependency
        found ?_
      rw [Outlook.answer_locate, hlocate, hfound]
    · intro hroots node hnode
      exact Repository.placesNextTo_of_isAbsolute (hnodes.isAbsolute hroots node hnode) dependency

/-- Two overlays of a type, each of which names the other as its supertype. -/
def Memory.entwined : Memory :=
  ⟨[⟨"/apps/page", some "/libs/page", none⟩, ⟨"/apps/page/main.js", none, some "main"⟩,
    ⟨"/libs/page", some "/apps/page", none⟩, ⟨"/libs/page/lib.js", none, some "lib"⟩]⟩

/-- A resolver over these resources. -/
def Resolver.entwined : Resolver := ⟨⟨.memory .entwined, ["/apps", "/libs"]⟩, ".js"⟩

/-- The script is found next to the second node of a lineage that ends where a path comes back. -/
theorem Resolver.entwined_follows_reference :
    Resolver.isScriptName Resolver.entwined.extension "lib.js" = true ∧
    Resolver.entwined.repository.Searches ⟨some "page/main.js", some "page"⟩
      ([⟨"/apps/page", some "/libs/page", none⟩, ⟨"/libs/page", some "/apps/page", none⟩] ++
        [⟨"/apps/page", some "/libs/page", none⟩]) ∧
    (Resolver.entwined.resolve ⟨some "page/main.js", some "page"⟩ "lib.js").value =
      .ok ⟨"/libs/page/lib.js", "lib"⟩ := by
  have hline : Resolver.entwined.repository.Lineage ⟨"/apps/page", some "/libs/page", none⟩
      [⟨"/apps/page", some "/libs/page", none⟩, ⟨"/libs/page", some "/apps/page", none⟩] := by
    refine ⟨rfl, .cons_cons ?_ (.singleton _), by decide, ?_⟩
    · show Resolver.entwined.repository.superTypeOf _ = _
      decide +kernel
    · intro last hlast y hy
      obtain rfl := Option.some.inj hlast
      have hback : Resolver.entwined.repository.superTypeOf ⟨"/libs/page", some "/apps/page", none⟩ =
          some ⟨"/apps/page", some "/libs/page", none⟩ := by decide +kernel
      obtain rfl := Option.some.inj (hback.symm.trans hy)
      decide
  have hsearches : Resolver.entwined.repository.Searches ⟨some "page/main.js", some "page"⟩
      ([⟨"/apps/page", some "/libs/page", none⟩, ⟨"/libs/page", some "/apps/page", none⟩] ++
        [⟨"/apps/page", some "/libs/page", none⟩]) := by
    have hdriver : Resolver.entwined.repository.driver? ⟨some "page/main.js", some "page"⟩ =
        some ⟨"/apps/page", some "/libs/page", none⟩ := by decide +kernel
    exact .along (by decide +kernel) hdriver (.callerType ⟨_, .refl, rfl⟩) hline
  refine ⟨by decide, hsearches, ?_⟩
  obtain ⟨nodes, hnodes, -, -, hok, -⟩ := (Resolver.entwined.resolve_eq_reference
    ⟨some "page/main.js", some "page"⟩ "lib.js").2 (by decide)
  obtain rfl := (hnodes _).1 hsearches
  exact (hok _).2 ⟨⟨"/libs/page/lib.js", none, some "lib"⟩, by decide +kernel, rfl, rfl⟩

/-! ### A search path that is not absolute -/

/-- A directory with a script next to the type of another. -/
def Directory.flat : Directory :=
  ((Directory.empty.writeType "/apps/page" none).writeFile "/apps/page/main.js" (some "main")
    ).writeFile "/apps/lib.js" (some "lib")

/-- A resolver over it whose search path is given without a slash. -/
def Resolver.flat : Resolver := ⟨⟨.directory .flat, ["apps"]⟩, ".js"⟩

/-- **Out of a node below a relative search path a name is looked up below the search paths again.**
The script next to the caller's type is there at the path that the name makes with the node's, and yet
the name is not found. -/
theorem Resolver.relative_root_misses :
    Resolver.flat.repository.Searches ⟨some "page/main.js", none⟩ [⟨"apps/page", none, none⟩] ∧
    Resolver.flat.repository.get "../lib.js" = none ∧
    (Path.normalize (Path.join "apps/page" "../lib.js")).bind Resolver.flat.repository.lookup =
      some ⟨"apps/lib.js", none, some "lib"⟩ ∧
    (Resolver.flat.resolve ⟨some "page/main.js", none⟩ "../lib.js").value =
      .error (.dependencyNotFound "../lib.js") := by
  have hlocate : (Resolver.flat.locate ⟨some "page/main.js", none⟩ "../lib.js").value = none := by
    decide +kernel
  refine ⟨.aside ?_ nofun, ?_, ?_, ?_⟩
  · decide +kernel
  · decide +kernel
  · decide +kernel
  · rw [Resolver.value_resolve _ (by decide), hlocate, Resolver.answerFor]

end ScriptModules
