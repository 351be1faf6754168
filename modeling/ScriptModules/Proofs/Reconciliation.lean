import ScriptModules.Proofs.Additions
import ScriptModules.Proofs.Resolution

/-!
# Where two types meet

The walk along supertypes starts where the type of the caller and the type driving the render meet. If
one of them is on the chain of the other, it is the one whose chain it is. Otherwise they meet as
overlays: they lie at one relative path below search paths, and the earlier search path wins.

The main statement, `Resolver.reconcile_unambiguous`, says that this leaves no choice. Search paths may
be nested, repeated, or end in slashes, but each path counts as lying below the first of them that
contains it (`Repository.LiesUnder`), and two different normal paths never lie at one relative path
below one search path (`Path.eq_of_below`). So the two numbers that are compared differ.
-/

namespace ScriptModules

namespace Path

/-! ### Below a search path -/

/-- The path is the search path itself, or it is there at a relative path below it. Slashes at the end
of the search path do not count. -/
def Below (path root relative : String) : Prop :=
  (path.toList = trimSlashes root.toList ∧ relative = "") ∨
    path.toList = trimSlashes root.toList ++ '/' :: relative.toList

theorem stripPrefix?_eq_some_iff {start cs rest : List Char} :
    stripPrefix? start cs = some rest ↔ cs = start ++ rest := by
  unfold stripPrefix?
  constructor
  · intro h
    split at h
    · rename_i hprefix
      obtain ⟨rest', rfl⟩ := List.isPrefixOf_iff_prefix.1 hprefix
      rw [List.drop_left] at h
      rw [Option.some.inj h]
    · cases h
  · rintro rfl
    rw [if_pos (List.isPrefixOf_iff_prefix.2 (List.prefix_append _ _)), List.drop_left]

/-- **A path is seen from a search path as the relative path at which it lies below it.** -/
theorem relativeTo_eq_some_iff {path root relative : String} :
    relativeTo path root = some relative ↔ Below path root relative := by
  unfold relativeTo Below
  dsimp only
  by_cases hsame : path.toList = trimSlashes root.toList
  · rw [if_pos hsame]
    constructor
    · intro h
      exact .inl ⟨hsame, (Option.some.inj h).symm⟩
    · rintro (⟨-, rfl⟩ | hlonger)
      · rfl
      · rw [hsame] at hlonger
        exact absurd (congrArg List.length hlonger) (by simp)
  · rw [if_neg hsame, Option.map_eq_some_iff]
    constructor
    -- the search path is taken off first, and the slash behind it then
    · rintro ⟨rest, hrest, rfl⟩
      obtain ⟨mid, hmid, hslash⟩ := Option.bind_eq_some_iff.1 hrest
      obtain rfl := stripPrefix?_eq_some_iff.1 hslash
      right
      rw [String.toList_ofList]
      exact stripPrefix?_eq_some_iff.1 hmid
    · rintro (⟨h, -⟩ | hlonger)
      · exact absurd h hsame
      · refine ⟨relative.toList, ?_, String.ofList_toList⟩
        rw [stripPrefix?_eq_some_iff.2 hlonger, Option.bind_some]
        exact stripPrefix?_eq_some_iff.2 rfl

/-- The only absolute normal form that ends in a slash is the root. -/
theorem eq_root_of_ends {path : String} (h : IsNormalAbsolute path) {front : List Char}
    (hend : path.toList = front ++ ['/']) : path = "/" := by
  obtain ⟨names, hnames, rfl⟩ := isNormalAbsolute_iff.1 h
  obtain rfl | ⟨above, n, rfl⟩ := List.eq_nil_or_concat' names
  · rfl
  have hn : IsName n := hnames n (by simp)
  obtain ⟨before, hbefore⟩ : ∃ before, (absolute (above ++ [n])).toList = before ++ n := by
    rw [toList_absolute]
    by_cases hne : above = []
    · exact ⟨['/'], by simp [hne, unite]⟩
    · rw [unite_append_singleton hne]
      exact ⟨'/' :: unite above ++ ['/'], by simp⟩
  -- the last character is one of the last name, and so no slash
  have hlast : n.getLast? = some '/' := by
    have hwhole : (before ++ n).getLast? = some '/' := by
      rw [← hbefore, hend, List.getLast?_concat]
    rwa [List.getLast?_append_of_ne_nil _ hn.1.1] at hwhole
  exact absurd (List.mem_of_getLast? hlast) hn.2

/-- **At one relative path below a search path lies one normal path.** -/
theorem eq_of_below {p q root relative : String} (hp : IsNormalAbsolute p) (hq : IsNormalAbsolute q)
    (hbelow : Below p root relative) (hbelow' : Below q root relative) : p = q := by
  -- the search path itself and the path with a slash behind it are not both normal
  have hnot : ∀ {s t : String}, IsNormalAbsolute s → IsNormalAbsolute t →
      s.toList = trimSlashes root.toList → t.toList = trimSlashes root.toList ++ ['/'] → False := by
    intro s t hs ht hself hslash
    obtain rfl := eq_root_of_ends ht hslash
    have hempty : trimSlashes root.toList = [] := List.append_left_eq_self.1 hslash.symm
    have habsolute := hs.2
    rw [hself, hempty] at habsolute
    cases habsolute
  rcases hbelow with ⟨hself, hrelative⟩ | hlonger
  · rcases hbelow' with ⟨hself', -⟩ | hlonger'
    · exact String.toList_injective (hself.trans hself'.symm)
    · rw [hrelative] at hlonger'
      exact (hnot hp hq hself hlonger').elim
  · rcases hbelow' with ⟨hself', hrelative⟩ | hlonger'
    · rw [hrelative] at hlonger
      exact (hnot hq hp hself' hlonger).elim
    · exact String.toList_injective (hlonger.trans hlonger'.symm)

end Path

/-! ### The first search path that contains a path -/

/-- The `i`-th of the search paths is the first that contains the path, and the path lies there at a
relative path. -/
def FirstAbove (roots : List String) (path : String) (i : Nat) (relative : String) : Prop :=
  (∃ root, roots[i]? = some root ∧ Path.Below path root relative) ∧
    ∀ k root, k < i → roots[k]? = some root → ∀ rest, ¬ Path.Below path root rest

section

variable {root : String} {rest : List String} {path relative : String} {i : Nat}

/-- If the first search path contains the path, it is the one. -/
theorem firstAbove_cons_of_below {relative' : String} (h : Path.Below path root relative') :
    FirstAbove (root :: rest) path i relative ↔ i = 0 ∧ Path.Below path root relative := by
  constructor
  · rintro ⟨⟨root', hroot', hbelow⟩, hfirst⟩
    cases i with
    | zero =>
      obtain rfl := Option.some.inj hroot'
      exact ⟨rfl, hbelow⟩
    | succ i => exact absurd h (hfirst 0 root i.succ_pos rfl relative')
  · rintro ⟨rfl, hbelow⟩
    exact ⟨⟨root, rfl, hbelow⟩, nofun⟩

/-- If the first search path does not contain the path, the others decide. -/
theorem firstAbove_cons_of_apart (h : ∀ relative', ¬ Path.Below path root relative') :
    FirstAbove (root :: rest) path i relative ↔
      ∃ j, i = j + 1 ∧ FirstAbove rest path j relative := by
  constructor
  · rintro ⟨⟨root', hroot', hbelow⟩, hfirst⟩
    cases i with
    | zero =>
      obtain rfl := Option.some.inj hroot'
      exact absurd hbelow (h _)
    | succ i =>
      exact ⟨i, rfl, ⟨root', hroot', hbelow⟩, fun k other hk hother =>
        hfirst (k + 1) other (Nat.succ_lt_succ hk) hother⟩
  · rintro ⟨j, rfl, ⟨root', hroot', hbelow⟩, hfirst⟩
    refine ⟨⟨root', hroot', hbelow⟩, fun k other hk hother => ?_⟩
    cases k with
    | zero =>
      obtain rfl := Option.some.inj hother
      exact h
    | succ k => exact hfirst k other (Nat.lt_of_succ_lt_succ hk) hother

end

/-- The position that a resolver finds is that of the first search path that contains the path. -/
theorem Resolver.overlayPosition_eq_some_iff {path relative : String} {roots : List String}
    {n m : Nat} : Resolver.overlayPosition path n roots = some (m, relative) ↔
      ∃ i, m = n + i ∧ FirstAbove roots path i relative := by
  -- the number that the search begins with is the number of those that were passed
  induction roots generalizing n with
  | nil =>
    constructor
    · nofun
    · rintro ⟨i, -, ⟨root, hroot, -⟩, -⟩
      cases hroot
  | cons root rest ih =>
    unfold overlayPosition
    cases hrelative : Path.relativeTo path root with
    | some relative' =>
      simp only [firstAbove_cons_of_below (Path.relativeTo_eq_some_iff.1 hrelative)]
      constructor
      · intro h
        obtain ⟨rfl, rfl⟩ := Prod.mk.inj (Option.some.inj h)
        exact ⟨0, rfl, rfl, Path.relativeTo_eq_some_iff.1 hrelative⟩
      · rintro ⟨i, rfl, rfl, hbelow⟩
        obtain rfl := Option.some.inj
          (hrelative.symm.trans (Path.relativeTo_eq_some_iff.2 hbelow))
        rfl
    | none =>
      have hapart : ∀ relative', ¬ Path.Below path root relative' := fun relative' h =>
        Option.some_ne_none _ ((Path.relativeTo_eq_some_iff.2 h).symm.trans hrelative)
      simp only [firstAbove_cons_of_apart hapart]
      rw [ih]
      constructor
      · rintro ⟨i, rfl, h⟩
        exact ⟨i + 1, by omega, i, rfl, h⟩
      · rintro ⟨_, rfl, i, rfl, h⟩
        exact ⟨i, by omega, h⟩

namespace Repository

variable (r : Repository)

/-- The path lies below the search paths: the first that contains it has this number, and it is there
at a relative path. -/
def LiesUnder (path : String) (i : Nat) (relative : String) : Prop :=
  FirstAbove r.searchPaths path i relative

/-- The path is that of the resource or of a node further on its chain of supertypes. -/
def OnChain (x : Resource) (path : String) : Prop :=
  ∃ nodes, r.Lineage x nodes ∧ path ∈ nodes.map (·.path)

variable {r}

/-- A resource is on its own chain. -/
theorem onChain_self (x : Resource) : r.OnChain x x.path :=
  ⟨_, r.superChain_lineage x,
    List.mem_map_of_mem (List.mem_of_mem_head? (r.superChain_lineage x).head)⟩

theorem liesUnder_iff {path relative : String} {i : Nat} :
    r.LiesUnder path i relative ↔
      Resolver.overlayPosition path 0 r.searchPaths = some (i, relative) := by
  rw [Resolver.overlayPosition_eq_some_iff]
  constructor
  · intro h
    exact ⟨i, (Nat.zero_add i).symm, h⟩
  · rintro ⟨j, rfl, h⟩
    rwa [Nat.zero_add]

end Repository

namespace Resolver

open ScriptModules.Path

variable (r : Resolver)

/-- A resource has a type exactly if the path of the type is on its chain. -/
theorem isResourceType_iff_onChain (x ancestor : Resource) :
    (r.isResourceType x ancestor).value = true ↔ r.repository.OnChain x ancestor.path := by
  have hline := r.repository.superChain_lineage x
  rw [Outlook.value_isResourceType, Outlook.answer_isType r _ x List.not_mem_nil,
    List.any_eq_true]
  constructor
  · rintro ⟨node, hnode, hpath⟩
    exact ⟨_, hline, List.mem_map.2 ⟨node, hnode, of_decide_eq_true hpath⟩⟩
  · rintro ⟨nodes, hnodes, hmem⟩
    rw [hnodes.unique hline] at hmem
    obtain ⟨node, hnode, hpath⟩ := List.mem_map.1 hmem
    exact ⟨node, hnode, decide_eq_true hpath⟩

/-- **Where two types meet is determined.** Let the paths of the caller's type and the driver be
absolute normal forms. The walk starts at the caller's type if the driver is on its chain, and else at
the driver if the caller's type is on the driver's. If neither is, and both lie below search paths at
one relative path, then the numbers of the search paths differ, and the walk starts at the one with the
smaller number. In all other cases it starts nowhere. -/
theorem reconcile_unambiguous {callerType driver : Resource}
    (hcaller : IsNormalAbsolute callerType.path) (hdriver : IsNormalAbsolute driver.path) :
    let start := (r.reconcile callerType driver).value
    (r.repository.OnChain callerType driver.path → start = some callerType) ∧
    (¬ r.repository.OnChain callerType driver.path →
      r.repository.OnChain driver callerType.path → start = some driver) ∧
    (¬ r.repository.OnChain callerType driver.path →
      ¬ r.repository.OnChain driver callerType.path →
      (∀ i j relative, r.repository.LiesUnder callerType.path i relative →
        r.repository.LiesUnder driver.path j relative →
        i ≠ j ∧ start = some (if i < j then callerType else driver)) ∧
      ((¬ ∃ i j relative, r.repository.LiesUnder callerType.path i relative ∧
        r.repository.LiesUnder driver.path j relative) → start = none)) := by
  dsimp only
  rw [← r.isResourceType_iff_onChain, ← r.isResourceType_iff_onChain]
  unfold reconcile
  rw [Noted.value_bind]
  refine ⟨fun hunder => ?_, fun hunder habove => ?_, fun hunder habove => ?_⟩
  · rw [if_pos hunder]
    rfl
  · rw [if_neg hunder, Noted.value_bind, if_pos habove]
    rfl
  · rw [if_neg hunder, Noted.value_bind, if_neg habove]
    dsimp only
    refine ⟨fun i j relative hi hj => ?_, fun hapart => ?_⟩
    · have hne : i ≠ j := by
        rintro rfl
        obtain ⟨⟨root, hroot, hbelow⟩, -⟩ := hi
        obtain ⟨⟨root', hroot', hbelow'⟩, -⟩ := hj
        obtain rfl := Option.some.inj (hroot.symm.trans hroot')
        -- one path below one search path: then the driver is on the caller's chain
        have hpath := eq_of_below hcaller hdriver hbelow hbelow'
        exact hunder ((r.isResourceType_iff_onChain _ _).2 (hpath ▸ Repository.onChain_self _))
      refine ⟨hne, ?_⟩
      rw [Repository.liesUnder_iff.1 hi, Repository.liesUnder_iff.1 hj]
      dsimp only
      rw [if_neg (not_not.2 rfl)]
      split <;> rfl
    · cases hleft : overlayPosition callerType.path 0 r.repository.searchPaths with
      | none => rfl
      | some left =>
        cases hright : overlayPosition driver.path 0 r.repository.searchPaths with
        | none => rfl
        | some right =>
          have hdiffer : left.2 ≠ right.2 := fun hsame =>
            hapart ⟨left.1, right.1, left.2, Repository.liesUnder_iff.2 hleft,
              Repository.liesUnder_iff.2 (hright.trans (by rw [hsame]))⟩
          dsimp only
          rw [if_pos hdiffer]
          rfl

end Resolver

/-- A resolver with two overlays of a page, below search paths that are nested, that are repeated and
that end in slashes. -/
def Resolver.overlaid : Resolver :=
  ⟨⟨.memory ⟨[⟨"/libs/site/page", none, none⟩, ⟨"/apps/site/page", none, none⟩]⟩,
    ["/apps/", "/apps/site", "/libs//", "/apps"]⟩, ".js"⟩

/-- The two overlays of the page meet at the one below the earlier search path. -/
theorem Resolver.overlaid_meet :
    (Resolver.overlaid.reconcile ⟨"/libs/site/page", none, none⟩
      ⟨"/apps/site/page", none, none⟩).value = some ⟨"/apps/site/page", none, none⟩ := by
  have hunder : ¬ Resolver.overlaid.repository.OnChain ⟨"/libs/site/page", none, none⟩
      "/apps/site/page" := fun h =>
    absurd ((Resolver.overlaid.isResourceType_iff_onChain _ ⟨"/apps/site/page", none, none⟩).2 h)
      (by decide +kernel)
  have habove : ¬ Resolver.overlaid.repository.OnChain ⟨"/apps/site/page", none, none⟩
      "/libs/site/page" := fun h =>
    absurd ((Resolver.overlaid.isResourceType_iff_onChain _ ⟨"/libs/site/page", none, none⟩).2 h)
      (by decide +kernel)
  have hlibs : Resolver.overlaid.repository.LiesUnder "/libs/site/page" 2 "site/page" :=
    Repository.liesUnder_iff.2 (by decide +kernel)
  have happs : Resolver.overlaid.repository.LiesUnder "/apps/site/page" 0 "site/page" :=
    Repository.liesUnder_iff.2 (by decide +kernel)
  exact (((Resolver.overlaid.reconcile_unambiguous ⟨by decide, by decide⟩
    ⟨by decide, by decide⟩).2.2 hunder habove).1 2 0 "site/page" hlibs happs).2

end ScriptModules
