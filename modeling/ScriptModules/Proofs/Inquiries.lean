import ScriptModules.Module.Use

/-!
# Inquiries

Whatever a module lookup learns of a repository, it learns by asking for the resource at a path and
going on from the answer. An inquiry is that conversation with the answers left open: it can be held
with any `lookup` whatsoever, and then has a list of the paths that were asked for besides what it
comes to.

`Outlook` is what a resolver knows before it asks. Its inquiries follow the lookups of
`Repository` and `Resolver` question by question, in the order in which the answers are needed, and
come to the same: `Outlook.answer_resolve` for one dependency, and `Resolver.request_eq` for
the run of a script that finds all of its dependencies or none.
-/

namespace ScriptModules

/-- Questions put to a repository one after the other, and what they come to. -/
inductive Inquiry (α : Type) where
  | done (a : α)
  /-- Ask for the resource at a path and go on from the answer. -/
  | ask (path : String) (next : Option Resource → Inquiry α)

namespace Inquiry

variable {α β : Type}

/-- Go on from what an inquiry comes to. -/
def andThen : Inquiry α → (α → Inquiry β) → Inquiry β
  | done a, f => f a
  | ask path next, f => ask path fun x => (next x).andThen f

instance : Monad Inquiry where
  pure := done
  bind := andThen

variable (lookup : String → Option Resource)

/-- What an inquiry comes to when `lookup` answers. -/
def answer : Inquiry α → α
  | done a => a
  | ask path next => (next (lookup path)).answer

/-- The paths that are asked for when `lookup` answers, in order. -/
def asked : Inquiry α → List String
  | done _ => []
  | ask path next => path :: (next (lookup path)).asked

@[simp] theorem answer_pure (a : α) : (pure a : Inquiry α).answer lookup = a := rfl

@[simp] theorem answer_bind (x : Inquiry α) (f : α → Inquiry β) :
    (x >>= f).answer lookup = (f (x.answer lookup)).answer lookup := by
  induction x with
  | done a => rfl
  | ask path next ih => exact ih (lookup path)

@[simp] theorem asked_bind (x : Inquiry α) (f : α → Inquiry β) :
    (x >>= f).asked lookup = x.asked lookup ++ (f (x.answer lookup)).asked lookup := by
  induction x with
  | done a => rfl
  | ask path next ih => exact congrArg (path :: ·) (ih (lookup path))

/-- The resource at a path, if there is a path. -/
def at? : Option String → Inquiry (Option Resource)
  | none => pure none
  | some path => ask path pure

/-- The first resource at the paths that there are. -/
def first : List (Option String) → Inquiry (Option Resource)
  | [] => pure none
  | path :: rest => do
    match ← at? path with
    | some x => return some x
    | none => first rest

@[simp] theorem answer_at? (path : Option String) :
    (at? path).answer lookup = path.bind lookup := by
  cases path <;> rfl

@[simp] theorem answer_first (paths : List (Option String)) :
    (first paths).answer lookup = (paths.filterMap id).findSome? lookup := by
  induction paths with
  | nil => rfl
  | cons path rest ih =>
    rw [first, answer_bind, answer_at?]
    cases path with
    | none => exact ih
    | some path =>
      have hkept : (some path :: rest).filterMap id = path :: rest.filterMap id := rfl
      rw [hkept, List.findSome?_cons, Option.bind_some]
      cases lookup path with
      | none => exact ih
      | some x => rfl

end Inquiry

/-! ### The inquiries of a resolver -/

/-- What a resolver knows before it asks: the search paths, the ending of scripts, and how many
resources of a chain of supertypes it follows. -/
structure Outlook where
  searchPaths : List String
  extension : String
  reach : Nat

/-- The outlook of a resolver. -/
def Resolver.outlook (r : Resolver) : Outlook :=
  ⟨r.repository.searchPaths, r.extension, r.repository.store.size + 2⟩

namespace Outlook

variable (o : Outlook)

/-- Ask for what a name may stand for. -/
def get (path : String) : Inquiry (Option Resource) :=
  if Path.isAbsolute path.toList then .at? (Path.normalize path)
  else .first (o.searchPaths.map fun root => Path.normalize (Path.join root path))

/-- Ask for the resource called `name` below another. -/
def child (parent : Resource) (name : String) : Inquiry (Option Resource) :=
  .at? (Path.normalize (Path.join parent.path name))

/-- Ask for the resource above another. -/
def parent (x : Resource) : Inquiry (Option Resource) := .at? (Path.parent x.path)

/-- Ask for what a name stands for, if there is one. -/
def getSome : Option String → Inquiry (Option Resource)
  | none => pure none
  | some path => o.get path

/-- Ask for the supertype of a resource. -/
def superTypeOf (x : Resource) : Inquiry (Option Resource) := o.getSome x.superType

/-- Ask for a name next to a resource. -/
def lookupFrom (node : Resource) (dependency : String) : Inquiry (Option Resource) :=
  if "..".toList.isPrefixOf dependency.toList then
    o.getSome (Path.normalize (Path.join node.path dependency))
  else child node dependency

/-- Ask for a name next to each resource of a chain of supertypes, up to a hit. -/
def walk (dependency : String) : Nat → List String → Resource → Inquiry (Option Resource)
  | 0, _, _ => pure none
  | reach + 1, visited, x =>
    if visited.contains x.path then pure none
    else do
      match ← o.lookupFrom x dependency with
      | some found => return some found
      | none =>
        match ← o.superTypeOf x with
        | some y => walk dependency reach (x.path :: visited) y
        | none => return none

/-- Ask whether a resource of a chain of supertypes has the given path. -/
def isType (ancestor : String) : Nat → List String → Resource → Inquiry Bool
  | 0, _, _ => pure false
  | reach + 1, visited, x =>
    if x.path = ancestor then pure true
    else if visited.contains x.path then pure false
    else do
      match ← o.superTypeOf x with
      | some y => isType ancestor reach (x.path :: visited) y
      | none => return false

/-- Ask where the walk along supertypes starts. -/
def reconcile (callerType driver : Resource) : Inquiry (Option Resource) := do
  if ← o.isType driver.path o.reach [] callerType then return some callerType
  if ← o.isType callerType.path o.reach [] driver then return some driver
  match Resolver.overlayPosition callerType.path 0 o.searchPaths,
      Resolver.overlayPosition driver.path 0 o.searchPaths with
  | some (i, left), some (j, right) =>
    if left ≠ right then return none
    else if i < j then return some callerType
    else return some driver
  | _, _ => return none

/-- Ask along the supertypes. -/
def byDriver (callerType : Resource) (driver : Option Resource) (dependency : String) :
    Inquiry (Option Resource) :=
  match driver with
  | none => pure none
  | some driver => do
    match ← o.reconcile callerType driver with
    | some start => o.walk dependency o.reach [] start
    | none => return none

/-- Ask through the calling script. -/
def byCaller (context : LookupContext) (dependency : String) : Inquiry (Option Resource) := do
  match ← o.getSome context.caller with
  | none => return none
  | some caller =>
    match ← parent caller with
    | none => return none
    | some callerType =>
      let driver ← o.getSome context.driverType
      match ← o.byDriver callerType driver dependency with
      | some found => return some found
      | none => o.lookupFrom callerType dependency

/-- Ask for what a dependency names. -/
def locate (context : LookupContext) (dependency : String) : Inquiry (Option Resource) := do
  match ← o.get dependency with
  | some found => return some found
  | none => o.byCaller context dependency

/-- Ask for the module that a dependency names. -/
def resolve (context : LookupContext) (dependency : String) :
    Inquiry (Except HostError ModuleSource) :=
  if ¬ Resolver.isScriptName o.extension dependency then
    pure (.error (.unsupportedDependency dependency))
  else do
    match ← o.locate context dependency with
    | none => return .error (.dependencyNotFound dependency)
    | some found =>
      match found.content with
      | some content => return .ok ⟨found.path, content⟩
      | none => return .error (.dependencyUnreadable dependency)

/-- Ask for modules in order, up to the first that is not found. -/
def resolveAll (context : LookupContext) :
    List String → Inquiry (Except HostError (List ModuleSource))
  | [] => return .ok []
  | dependency :: rest => do
    match ← o.resolve context dependency with
    | .error e => return .error e
    | .ok source => return (← resolveAll context rest).map (source :: ·)

/-- Ask for the path of a script, if its name is not empty. -/
def pathOf (name : String) : Inquiry (Option String) :=
  if name.isEmpty then pure none else do return (← o.get name).map (·.path)

/-- Ask for the first of the scripts that is found. -/
def callerAmong : List String → Inquiry (Option String)
  | [] => pure none
  | name :: rest => do
    match ← o.pathOf name with
    | some path => return some path
    | none => callerAmong rest

/-- **The whole conversation of a request for modules:** where the lookup starts, from the names of
scripts that the bindings hold and the type driving the render, and then each dependency. -/
def request (scripts : List String) (driverType : Option String) (dependencies : List String) :
    Inquiry (Except HostError (List ModuleSource)) := do
  let caller ← o.callerAmong scripts
  o.resolveAll ⟨caller, driverType⟩ dependencies

end Outlook

/-! ### What the inquiries come to -/

namespace Outlook

section Answers

variable (r : Resolver)

@[simp] theorem answer_get (path : String) :
    (r.outlook.get path).answer r.repository.lookup = r.repository.get path := by
  unfold get Repository.get Repository.candidates
  split
  · rw [Inquiry.answer_at?]
    cases Path.normalize path with
    | none => rfl
    | some p => exact (List.findSome?_singleton ..).symm
  · rw [Inquiry.answer_first, List.filterMap_map]
    rfl

@[simp] theorem answer_getSome (path : Option String) :
    (r.outlook.getSome path).answer r.repository.lookup = path.bind r.repository.get := by
  cases path with
  | none => rfl
  | some path => exact answer_get r path

@[simp] theorem answer_superTypeOf (x : Resource) :
    (r.outlook.superTypeOf x).answer r.repository.lookup = r.repository.superTypeOf x :=
  answer_getSome r x.superType

@[simp] theorem answer_lookupFrom (node : Resource) (dependency : String) :
    (r.outlook.lookupFrom node dependency).answer r.repository.lookup =
      r.lookupFrom node dependency := by
  unfold lookupFrom Resolver.lookupFrom
  split
  · exact answer_getSome r _
  · exact Inquiry.answer_at? ..

theorem value_lookupAlong (dependency : String) (repeated : Option Resource)
    (nodes : List Resource) :
    (r.lookupAlong dependency repeated nodes).value =
      nodes.findSome? (r.lookupFrom · dependency) := by
  induction nodes with
  | nil => rfl
  | cons node rest ih =>
    rw [Resolver.lookupAlong, Noted.value_bind, List.findSome?_cons]
    cases r.lookupFrom node dependency with
    | some found => rfl
    | none => exact ih

/-- Asking along a chain while it is followed finds what asking along all of it does. -/
theorem answer_walk (dependency : String) (reach : Nat) (visited : List String) (x : Resource) :
    (r.outlook.walk dependency reach visited x).answer r.repository.lookup =
      (r.repository.chainFrom reach visited x).nodes.findSome? (r.lookupFrom · dependency) := by
  induction reach generalizing visited x with
  | zero => rfl
  | succ reach ih =>
    unfold walk Repository.chainFrom
    by_cases hx : visited.contains x.path = true
    · rw [if_pos hx, if_pos hx]
      rfl
    · rw [if_neg hx, if_neg hx, Inquiry.answer_bind, answer_lookupFrom]
      cases hfound : r.lookupFrom x dependency with
      | some found =>
        cases r.repository.superTypeOf x <;> simp [hfound]
      | none =>
        dsimp only
        rw [Inquiry.answer_bind, answer_superTypeOf]
        cases r.repository.superTypeOf x with
        | none => simp [hfound]
        | some y =>
          rw [List.findSome?_cons, hfound]
          exact ih (x.path :: visited) y

/-- Asking for a path along a chain, before its resources are compared with the ones met, tells
whether the chain has it. -/
theorem answer_isType {ancestor : String} (reach : Nat) {visited : List String} (x : Resource)
    (hv : ancestor ∉ visited) :
    (r.outlook.isType ancestor reach visited x).answer r.repository.lookup =
      (r.repository.chainFrom reach visited x).nodes.any (fun y => y.path = ancestor) := by
  induction reach generalizing visited x with
  | zero => rfl
  | succ reach ih =>
    unfold isType Repository.chainFrom
    -- the order of the two comparisons makes no difference while the path sought has not been met
    by_cases hx : x.path = ancestor
    · have hnew : visited.contains x.path ≠ true := by
        rw [hx]
        exact fun hmem => hv (List.contains_iff_mem.1 hmem)
      rw [if_pos hx, if_neg hnew]
      cases r.repository.superTypeOf x <;> simp [hx]
    · rw [if_neg hx]
      by_cases hmet : visited.contains x.path = true
      · rw [if_pos hmet, if_pos hmet]
        rfl
      · rw [if_neg hmet, if_neg hmet, Inquiry.answer_bind, answer_superTypeOf]
        cases r.repository.superTypeOf x with
        | none => simp [hx]
        | some y =>
          have hv' : ancestor ∉ x.path :: visited := by
            rw [List.mem_cons, not_or]
            exact ⟨Ne.symm hx, hv⟩
          rw [List.any_cons, decide_eq_false hx, Bool.false_or]
          exact ih y hv'

theorem value_isResourceType (x ancestor : Resource) :
    (r.isResourceType x ancestor).value =
      (r.outlook.isType ancestor.path r.outlook.reach [] x).answer r.repository.lookup := by
  rw [answer_isType r _ x List.not_mem_nil]
  unfold Resolver.isResourceType
  dsimp only
  split
  · rename_i h
    exact h.symm
  · rename_i h
    exact (Bool.not_eq_true _ ▸ h).symm

theorem answer_reconcile (callerType driver : Resource) :
    (r.outlook.reconcile callerType driver).answer r.repository.lookup =
      (r.reconcile callerType driver).value := by
  unfold reconcile Resolver.reconcile
  rw [Inquiry.answer_bind, Noted.value_bind, value_isResourceType]
  split
  · rfl
  · rw [Inquiry.answer_bind, Noted.value_bind, value_isResourceType]
    split
    · rfl
    · dsimp only [Resolver.outlook]
      cases Resolver.overlayPosition callerType.path 0 r.repository.searchPaths with
      | none => rfl
      | some left =>
        cases Resolver.overlayPosition driver.path 0 r.repository.searchPaths with
        | none => rfl
        | some right =>
          dsimp only
          split
          · rfl
          · split <;> rfl

theorem answer_byDriver (callerType : Resource) (driver : Option Resource) (dependency : String) :
    (r.outlook.byDriver callerType driver dependency).answer r.repository.lookup =
      (r.lookupByDriver callerType driver dependency).value := by
  cases driver with
  | none => rfl
  | some driver =>
    unfold byDriver Resolver.lookupByDriver
    dsimp only
    rw [Inquiry.answer_bind, Noted.value_bind, answer_reconcile]
    cases (r.reconcile callerType driver).value with
    | none => rfl
    | some start =>
      dsimp only
      rw [answer_walk, Resolver.walkHierarchy, value_lookupAlong]
      rfl

theorem answer_byCaller (context : LookupContext) (dependency : String) :
    (r.outlook.byCaller context dependency).answer r.repository.lookup =
      (r.lookupByCaller context dependency).value := by
  unfold byCaller Resolver.lookupByCaller
  rw [Inquiry.answer_bind, answer_getSome]
  cases context.caller.bind r.repository.get with
  | none => rfl
  | some caller =>
    have hparent : (parent caller).answer r.repository.lookup = r.repository.parent caller :=
      Inquiry.answer_at? ..
    dsimp only
    rw [Inquiry.answer_bind, hparent]
    cases r.repository.parent caller with
    | none => rfl
    | some callerType =>
      dsimp only
      rw [Inquiry.answer_bind, answer_getSome, Inquiry.answer_bind, answer_byDriver,
        Noted.value_bind]
      cases (r.lookupByDriver callerType (context.driverType.bind r.repository.get)
        dependency).value with
      | some found => rfl
      | none => exact answer_lookupFrom r callerType dependency

theorem answer_locate (context : LookupContext) (dependency : String) :
    (r.outlook.locate context dependency).answer r.repository.lookup =
      (r.locate context dependency).value := by
  unfold locate Resolver.locate
  rw [Inquiry.answer_bind, answer_get]
  cases r.repository.get dependency with
  | some found => rfl
  | none => exact answer_byCaller r context dependency

/-- **The inquiry for a dependency comes to what the resolver finds.** -/
theorem answer_resolve (context : LookupContext) (dependency : String) :
    (r.outlook.resolve context dependency).answer r.repository.lookup =
      (r.resolve context dependency).value := by
  unfold resolve Resolver.resolve
  by_cases hname : ¬ Resolver.isScriptName r.extension dependency
  · rw [if_pos hname, if_pos (show ¬ Resolver.isScriptName r.outlook.extension dependency from hname)]
    rfl
  · rw [if_neg hname,
      if_neg (show ¬¬ Resolver.isScriptName r.outlook.extension dependency from hname),
      Inquiry.answer_bind, Noted.value_bind, answer_locate]
    cases (r.locate context dependency).value with
    | none => rfl
    | some found =>
      dsimp only
      rw [Noted.value_bind]
      cases found.content <;> rfl

theorem answer_pathOf (name : String) :
    (r.outlook.pathOf name).answer r.repository.lookup = r.pathOf name := by
  unfold pathOf Resolver.pathOf
  split
  · rfl
  · rw [Inquiry.answer_bind, answer_get]
    rfl

end Answers

end Outlook

/-! ### Requests of scripts -/

/-- A run that yields a value from whatever world. -/
def Run.Yields {ε α : Type} (x : Run ε α) : Prop := ∀ w, ∃ a w', x w = (.done a, w')

namespace Run.Yields

variable {ε α β : Type}

theorem pure {a : α} : Yields (pure a : Run ε α) := fun w => ⟨a, w, rfl⟩

theorem change {f : World → World} : Yields (Run.change f : Run ε Unit) := fun w => ⟨(), f w, rfl⟩

theorem changeGet {f : World → α × World} : Yields (Run.changeGet f : Run ε α) :=
  fun w => ⟨(f w).1, (f w).2, rfl⟩

theorem bind {x : Run ε α} {f : α → Run ε β} (hx : Yields x) (hf : ∀ a, Yields (f a)) :
    Yields (x >>= f) := by
  intro w
  obtain ⟨a, w₁, hxw⟩ := hx w
  rw [Run.bind_of_done hxw]
  exact hf a w₁

theorem supply (s : Supplier) : Yields (Run.supply s : Run ε Value) := by
  cases s with
  | timer t c => exact .bind .changeGet fun _ => .pure
  | host name v => exact .bind .change fun _ => .pure

theorem realize (c : Ref .cell) : Yields (Run.realize c : Run ε Value) := by
  intro w
  unfold Run.realize
  split
  · exact ⟨_, _, rfl⟩
  · exact ⟨_, _, rfl⟩
  · exact bind (supply _) (fun _ => bind change fun _ => pure) w

end Run.Yields

/-- Reading the text of a binding yields it, or that there is none. -/
theorem Bindings.getText?_yields {ε : Type} (b : Bindings) (name : String) :
    Run.Yields (b.getText? name : Run ε (Option String)) := by
  refine .bind ?_ fun _ => .pure
  unfold Bindings.get?
  split
  · exact .pure
  · rename_i e _
    refine .bind ?_ fun _ => .pure
    cases e with
    | value v => exact .pure
    | lazy c => exact .realize c

namespace Resolver

variable (r : Resolver)

/-- The caller is looked for among texts that the bindings hold. -/
theorem callerIn_yields (b : Bindings) (names : List String) (w : World) :
    ∃ scripts w', (r.callerIn b names : Hosted (Option String)) w =
      (.done ((r.outlook.callerAmong scripts).answer r.repository.lookup), w') := by
  induction names generalizing w with
  | nil => exact ⟨[], w, rfl⟩
  | cons name rest ih =>
    have hyields : Run.Yields (b.getText? name : Hosted (Option String)) := b.getText?_yields name
    obtain ⟨t, w₁, ht⟩ := hyields w
    rw [callerIn, Run.bind_of_done ht]
    cases t with
    | none => exact ih w₁
    | some script =>
      rw [Option.bind_some]
      cases hpath : r.pathOf script with
      | some path =>
        refine ⟨[script], w₁, ?_⟩
        rw [Outlook.callerAmong, Inquiry.answer_bind, Outlook.answer_pathOf, hpath]
        rfl
      | none =>
        obtain ⟨scripts, w', hrest⟩ := ih w₁
        refine ⟨script :: scripts, w', ?_⟩
        rw [Outlook.callerAmong, Inquiry.answer_bind, Outlook.answer_pathOf, hpath]
        exact hrest

/-- **Where a lookup starts** comes from texts that the bindings hold. -/
theorem lookupContext_yields (b : Bindings) (w : World) :
    ∃ scripts driverType w', (r.lookupContext b : Hosted LookupContext) w =
      (.done ⟨(r.outlook.callerAmong scripts).answer r.repository.lookup, driverType⟩, w') := by
  obtain ⟨scripts, w₁, hcaller⟩ :=
    r.callerIn_yields b [ReservedName.scriptFilename, ReservedName.renderScript] w
  have hyields : Run.Yields (b.getText? ReservedName.resourceType : Hosted (Option String)) :=
    b.getText?_yields _
  obtain ⟨driverType, w₂, hdriver⟩ := hyields w₁
  refine ⟨scripts, driverType, w₂, ?_⟩
  rw [lookupContext, Run.bind_of_done hcaller, Run.bind_of_done hdriver]
  rfl

/-- A module is found as the resolver says; only notes are written on the way. -/
theorem find_eq (context : LookupContext) (dependency : String) (w : World) :
    ∃ w', r.find context dependency w =
      Run.ofExcept (r.resolve context dependency).value w' :=
  ⟨_, Run.bind_of_done rfl⟩

/-- Modules are found as the inquiry for them says. -/
theorem findAll_eq (context : LookupContext) (dependencies : List String) (w : World) :
    ∃ w', r.findAll context dependencies w =
      Run.ofExcept ((r.outlook.resolveAll context dependencies).answer r.repository.lookup) w' := by
  induction dependencies generalizing w with
  | nil => exact ⟨w, rfl⟩
  | cons dependency rest ih =>
    obtain ⟨w₁, hfind⟩ := r.find_eq context dependency w
    rw [Outlook.resolveAll, Inquiry.answer_bind, Outlook.answer_resolve, findAll]
    cases hfound : (r.resolve context dependency).value with
    | error e =>
      rw [hfound] at hfind
      exact ⟨w₁, Run.bind_of_failed hfind⟩
    | ok source =>
      rw [hfound] at hfind
      obtain ⟨w₂, hrest⟩ := ih w₁
      refine ⟨w₂, ?_⟩
      dsimp only
      rw [Run.bind_of_done hfind, Inquiry.answer_bind]
      cases hall : (r.outlook.resolveAll context rest).answer r.repository.lookup with
      | error e =>
        rw [hall] at hrest
        exact Run.bind_of_failed hrest
      | ok sources =>
        rw [hall] at hrest
        exact Run.bind_of_done hrest

/-- **What a script's request for modules comes to is what the conversation comes to** that asks the
repository about the texts in the bindings of the script. -/
theorem request_eq (b : Bindings) (dependencies : List String) (w : World) :
    ∃ scripts driverType w',
      (do r.findAll (← r.lookupContext b) dependencies : Hosted (List ModuleSource)) w =
        Run.ofExcept
          ((r.outlook.request scripts driverType dependencies).answer r.repository.lookup) w' := by
  obtain ⟨scripts, driverType, w₁, hcontext⟩ := r.lookupContext_yields b w
  obtain ⟨w₂, hfound⟩ := r.findAll_eq
    ⟨(r.outlook.callerAmong scripts).answer r.repository.lookup, driverType⟩ dependencies w₁
  refine ⟨scripts, driverType, w₂, ?_⟩
  rw [Run.bind_of_done hcontext, Outlook.request, Inquiry.answer_bind]
  exact hfound

end Resolver

end ScriptModules
