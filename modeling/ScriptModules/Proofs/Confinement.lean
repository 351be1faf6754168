import ScriptModules.Proofs.CleanPaths
import ScriptModules.Proofs.Inquiries

/-!
# Confinement

A repository is never asked for anything outside its tree, whatever texts scripts, bindings,
supertypes and search paths are made of. `Careful` inquiries ask for clean paths only, and all
inquiries of a resolver are (`Outlook.request_careful`): a name is normalized before it is asked
for, and the one path that is not, the path above the calling script, is taken of a path that was
asked for before. This is where the answers must bear the paths they were asked for (`Bears`).

With `Directory.stays_inside` no way through a directory leaves it (`Outlook.asks_inside`).
-/

namespace ScriptModules

/-! ### Careful inquiries -/

/-- Answers that bear the paths they were asked for. -/
def Bears (lookup : String → Option Resource) : Prop :=
  ∀ path x, lookup path = some x → x.path = path

/-- A resource, if any, at a clean path. -/
def Placed (x : Option Resource) : Prop := ∀ y, x = some y → Path.Clean y.path

/-- An inquiry that asks for clean paths only and comes to something of the given kind. -/
structure Inquiry.Careful {α : Type} (lookup : String → Option Resource) (x : Inquiry α)
    (P : α → Prop) : Prop where
  asked : ∀ path ∈ x.asked lookup, Path.Clean path
  answer : P (x.answer lookup)

namespace Inquiry.Careful

variable {α β : Type} {lookup : String → Option Resource} {P : α → Prop} {Q : β → Prop}

theorem pure {a : α} (h : P a) : Careful lookup (pure a) P := ⟨nofun, h⟩

theorem bind {x : Inquiry α} {f : α → Inquiry β} (hx : Careful lookup x P)
    (hf : ∀ a, P a → Careful lookup (f a) Q) : Careful lookup (x >>= f) Q := by
  have hrest := hf (x.answer lookup) hx.answer
  constructor
  · intro path hpath
    rw [asked_bind] at hpath
    rcases List.mem_append.1 hpath with h | h
    · exact hx.asked path h
    · exact hrest.asked path h
  · rw [answer_bind]
    exact hrest.answer

theorem at? (hlookup : Bears lookup) {path : Option String}
    (h : ∀ p, path = some p → Path.Clean p) : Careful lookup (Inquiry.at? path) Placed := by
  cases path with
  | none => exact .pure nofun
  | some path =>
    have hpath : Path.Clean path := h path rfl
    refine ⟨fun p hp => ?_, fun y hy => ?_⟩
    · obtain rfl : p = path := List.mem_singleton.1 hp
      exact hpath
    · have hyp : y.path = path := hlookup path y hy
      exact hyp ▸ hpath

/-- Asking for a path that was normalized is careful. -/
theorem atNormal (hlookup : Bears lookup) (path : String) :
    Careful lookup (Inquiry.at? (Path.normalize path)) Placed :=
  at? hlookup fun _ => Path.normalize_clean

theorem first (hlookup : Bears lookup) {paths : List (Option String)}
    (h : ∀ path ∈ paths, ∀ p, path = some p → Path.Clean p) :
    Careful lookup (Inquiry.first paths) Placed := by
  induction paths with
  | nil => exact .pure nofun
  | cons path rest ih =>
    refine .bind (at? hlookup (h path List.mem_cons_self)) fun x hx => ?_
    cases x with
    | some x => exact .pure hx
    | none => exact ih fun path hpath => h path (List.mem_cons_of_mem _ hpath)

end Inquiry.Careful

namespace Outlook

open Inquiry

variable (o : Outlook) {lookup : String → Option Resource}

/-- A name is normalized before it is asked for. -/
theorem get_careful (hlookup : Bears lookup) (path : String) :
    Careful lookup (o.get path) Placed := by
  unfold get
  split
  · exact .atNormal hlookup path
  · refine .first hlookup fun candidate hcandidate p hp => ?_
    obtain ⟨root, -, rfl⟩ := List.mem_map.1 hcandidate
    exact Path.normalize_clean hp

theorem child_careful (hlookup : Bears lookup) (x : Resource) (name : String) :
    Careful lookup (child x name) Placed := .atNormal hlookup _

/-- The path above a resource that was found at a clean path is clean. -/
theorem parent_careful (hlookup : Bears lookup) {x : Resource} (hx : Path.Clean x.path) :
    Careful lookup (parent x) Placed := .at? hlookup fun _ => Path.parent_clean hx

theorem getSome_careful (hlookup : Bears lookup) (path : Option String) :
    Careful lookup (o.getSome path) Placed := by
  cases path with
  | none => exact .pure nofun
  | some path => exact o.get_careful hlookup path

theorem lookupFrom_careful (hlookup : Bears lookup) (node : Resource) (dependency : String) :
    Careful lookup (o.lookupFrom node dependency) Placed := by
  unfold lookupFrom
  split
  · exact o.getSome_careful hlookup _
  · exact child_careful hlookup node dependency

theorem walk_careful (hlookup : Bears lookup) (dependency : String) (reach : Nat)
    (visited : List String) (x : Resource) :
    Careful lookup (o.walk dependency reach visited x) Placed := by
  induction reach generalizing visited x with
  | zero => exact .pure nofun
  | succ reach ih =>
    unfold walk
    split
    · exact .pure nofun
    · refine .bind (o.lookupFrom_careful hlookup x dependency) fun found hfound => ?_
      cases found with
      | some found => exact .pure hfound
      | none =>
        refine .bind (o.getSome_careful hlookup x.superType) fun y _ => ?_
        cases y with
        | some y => exact ih (x.path :: visited) y
        | none => exact .pure nofun

theorem isType_careful (hlookup : Bears lookup) (ancestor : String) (reach : Nat)
    (visited : List String) (x : Resource) :
    Careful lookup (o.isType ancestor reach visited x) fun _ => True := by
  induction reach generalizing visited x with
  | zero => exact .pure trivial
  | succ reach ih =>
    unfold isType
    split
    · exact .pure trivial
    · split
      · exact .pure trivial
      · refine .bind (o.getSome_careful hlookup x.superType) fun y _ => ?_
        cases y with
        | some y => exact ih (x.path :: visited) y
        | none => exact .pure trivial

theorem reconcile_careful (hlookup : Bears lookup) (callerType driver : Resource) :
    Careful lookup (o.reconcile callerType driver) fun _ => True := by
  refine .bind (o.isType_careful hlookup driver.path o.reach [] callerType) fun under _ => ?_
  split
  · exact .pure trivial
  · refine .bind (o.isType_careful hlookup callerType.path o.reach [] driver) fun above _ => ?_
    split
    · exact .pure trivial
    · split
      · split
        · exact .pure trivial
        · split <;> exact .pure trivial
      · exact .pure trivial

theorem byDriver_careful (hlookup : Bears lookup) (callerType : Resource)
    (driver : Option Resource) (dependency : String) :
    Careful lookup (o.byDriver callerType driver dependency) Placed := by
  cases driver with
  | none => exact .pure nofun
  | some driver =>
    refine .bind (o.reconcile_careful hlookup callerType driver) fun start _ => ?_
    cases start with
    | some start => exact o.walk_careful hlookup dependency o.reach [] start
    | none => exact .pure nofun

theorem byCaller_careful (hlookup : Bears lookup) (context : LookupContext) (dependency : String) :
    Careful lookup (o.byCaller context dependency) Placed := by
  refine .bind (o.getSome_careful hlookup context.caller) fun caller hcaller => ?_
  cases caller with
  | none => exact .pure nofun
  | some caller =>
    refine .bind (parent_careful hlookup (hcaller caller rfl)) fun callerType _ => ?_
    cases callerType with
    | none => exact .pure nofun
    | some callerType =>
      refine .bind (o.getSome_careful hlookup context.driverType) fun driver _ => ?_
      refine .bind (o.byDriver_careful hlookup callerType driver dependency) fun found hfound => ?_
      cases found with
      | some found => exact .pure hfound
      | none => exact o.lookupFrom_careful hlookup callerType dependency

theorem resolve_careful (hlookup : Bears lookup) (context : LookupContext) (dependency : String) :
    Careful lookup (o.resolve context dependency) fun _ => True := by
  unfold resolve
  split
  · exact .pure trivial
  · have hlocate : Careful lookup (o.locate context dependency) Placed := by
      refine .bind (o.get_careful hlookup dependency) fun found hfound => ?_
      cases found with
      | some found => exact .pure hfound
      | none => exact o.byCaller_careful hlookup context dependency
    refine .bind hlocate fun found _ => ?_
    cases found with
    | none => exact .pure trivial
    | some found =>
      dsimp only
      split <;> exact .pure trivial

theorem resolveAll_careful (hlookup : Bears lookup) (context : LookupContext)
    (dependencies : List String) :
    Careful lookup (o.resolveAll context dependencies) fun _ => True := by
  induction dependencies with
  | nil => exact .pure trivial
  | cons dependency rest ih =>
    refine .bind (o.resolve_careful hlookup context dependency) fun source _ => ?_
    cases source with
    | error e => exact .pure trivial
    | ok source => exact .bind ih fun _ _ => .pure trivial

theorem callerAmong_careful (hlookup : Bears lookup) (scripts : List String) :
    Careful lookup (o.callerAmong scripts) fun _ => True := by
  induction scripts with
  | nil => exact .pure trivial
  | cons name rest ih =>
    have hpath : Careful lookup (o.pathOf name) fun _ => True := by
      unfold pathOf
      split
      · exact .pure trivial
      · exact .bind (o.get_careful hlookup name) fun _ _ => .pure trivial
    refine .bind hpath fun path _ => ?_
    cases path with
    | some path => exact .pure trivial
    | none => exact ih

/-- **A request for modules asks for clean paths only.** -/
theorem request_careful (hlookup : Bears lookup) (scripts : List String)
    (driverType : Option String) (dependencies : List String) :
    Careful lookup (o.request scripts driverType dependencies) fun _ => True :=
  .bind (o.callerAmong_careful hlookup scripts) fun _ _ => o.resolveAll_careful hlookup _ _

/-- A path that is asked for is clean, and no way to it through a directory leaves that. -/
theorem inside_of_asked (hlookup : Bears lookup) {scripts : List String}
    {driverType : Option String} {dependencies : List String} {path : String}
    (hpath : path ∈ (o.request scripts driverType dependencies).asked lookup) :
    Path.Clean path ∧
      ∀ (d : Directory) (steps : List String) (p : Place), steps <+: Directory.way path →
        steps.foldlM d.step (.inside []) = some p → p = .inside (steps.filter (· ≠ "")) := by
  have hclean : Path.Clean path :=
    (o.request_careful hlookup scripts driverType dependencies).asked path hpath
  refine ⟨hclean, ?_⟩
  intro d steps p hsteps hp
  exact Directory.stays_inside hclean d hsteps hp

end Outlook

/-- **A repository is never consulted outside its tree.** What a request of a script comes to is what
a conversation with the repository comes to, about the texts in its bindings. In such a conversation,
with whatever texts, search paths and reach, and with any answers that bear the paths they were asked
for, each path that is asked for is clean, and its way through a directory is inside at each step. -/
theorem Resolver.consults_inside (r : Resolver) (dependencies : List String) :
    (∀ (b : Bindings) (w : World), ∃ scripts driverType w',
      (do r.findAll (← r.lookupContext b) dependencies : Hosted (List ModuleSource)) w =
        Run.ofExcept
          ((r.outlook.request scripts driverType dependencies).answer r.repository.lookup) w') ∧
    ∀ (reach : Nat) (lookup : String → Option Resource), Bears lookup →
      ∀ (scripts : List String) (driverType : Option String), ∀ path ∈
        (({ r.outlook with reach := reach }).request scripts driverType dependencies).asked lookup,
        Path.Clean path ∧
          ∀ (d : Directory) (steps : List String) (p : Place), steps <+: Directory.way path →
            steps.foldlM d.step (.inside []) = some p → p = .inside (steps.filter (· ≠ "")) := by
  refine ⟨fun b w => r.request_eq b dependencies w, ?_⟩
  intro reach lookup hlookup scripts driverType path hpath
  exact ({ r.outlook with reach := reach } : Outlook).inside_of_asked hlookup hpath

/-- Resources whose supertypes climb out of the tree and come back. -/
def Memory.climbing : Memory :=
  ⟨[⟨"/apps/page/page.js", none, some ""⟩, ⟨"/apps/page", some "/libs/../../page", none⟩,
    ⟨"/libs/page", some "page//./", none⟩]⟩

/-- A resolver over these resources, one of whose search paths lies outside. -/
def Resolver.climbing : Resolver := ⟨⟨.memory .climbing, ["/apps", "../etc"]⟩, ".js"⟩

/-- A dependency that climbs out of the caller's type is asked for in the tree or not at all. -/
theorem Resolver.climbing_consults_inside :
    Bears Memory.climbing.lookup ∧
    ((({ Resolver.climbing.outlook with reach := 5 }).request ["", "page/page.js"]
      (some "/libs/./page") ["./a/..//../secret.js"]).asked Memory.climbing.lookup =
      ["/apps/page/page.js", "/secret.js", "/apps/page/page.js", "/apps/page", "/libs/page",
        "/apps/page", "/libs/secret.js", "/apps/page", "/apps/secret.js", "/apps/secret.js"]) ∧
    Path.Clean "/libs/secret.js" := by
  have hbears : Bears Memory.climbing.lookup := fun _ _ => Memory.path_of_lookup
  have hasked : (({ Resolver.climbing.outlook with reach := 5 }).request ["", "page/page.js"]
      (some "/libs/./page") ["./a/..//../secret.js"]).asked Memory.climbing.lookup =
      ["/apps/page/page.js", "/secret.js", "/apps/page/page.js", "/apps/page", "/libs/page",
        "/apps/page", "/libs/secret.js", "/apps/page", "/apps/secret.js", "/apps/secret.js"] := by
    decide +kernel
  refine ⟨hbears, hasked, ?_⟩
  have h := (Resolver.climbing.consults_inside ["./a/..//../secret.js"]).2 5
    Memory.climbing.lookup hbears ["", "page/page.js"] (some "/libs/./page")
  refine (h "/libs/secret.js" ?_).1
  rw [hasked]
  decide

end ScriptModules
