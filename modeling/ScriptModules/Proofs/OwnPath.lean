import ScriptModules.Proofs.Confinement

/-!
# Finding a resource under its own path

A module that asks for others is known by the path it was found under, so that path has to lead to
it again. It does if it is absolute, since it is a normal form and so stands for itself alone
(`Path.normalize_normal`). If it is not, it is tried below the search paths once more, and
`Path.normalize_join_self` says which of them add nothing to it: those that are not empty and yet
come to nothing, such as a single dot.

`Outlook.own_path_leads_back` puts this together for any answers that bear the paths they were asked
for: the path of what was found leads back exactly if it is absolute, or if the first search path
below which something is kept at it adds nothing. Below absolute search paths, and below the empty
one, every path that is found is absolute. In a directory a search path without a slash leads to
resources that cannot be found again, `Repository.slashless_not_found_again`.
-/

namespace ScriptModules

namespace Path

/-! ### Walking along a path in two parts -/

theorem walk_append (above ps qs : List (List Char)) :
    walk above (ps ++ qs) = (walk above ps).bind fun names => walk names.reverse qs := by
  induction ps generalizing above with
  | nil =>
    have hback : above.reverse.reverse = above := List.reverse_reverse above
    rw [List.nil_append, walk, Option.bind_some, hback]
  | cons p ps ih =>
    simp only [List.cons_append, walk]
    split
    · exact ih above
    · split
      · cases above with
        | nil => rfl
        | cons _ above => exact ih above
      · exact ih (p :: above)

/-- The names of a path are those before a slash, and from there on those behind it. -/
theorem names?_append_slash (before after : List Char) :
    names? (before ++ '/' :: after) =
      (names? before).bind fun names => walk names.reverse (pieces after) := by
  rw [names?, pieces_append_slash, walk_append]
  rfl

/-- Slashes at the end are no names. -/
theorem names?_append_slashes (cs : List Char) {slashes : List Char} (h : ∀ c ∈ slashes, c = '/') :
    names? (cs ++ slashes) = names? cs := by
  induction slashes generalizing cs with
  | nil => rw [List.append_nil]
  | cons c slashes ih =>
    obtain rfl := h c List.mem_cons_self
    have hrest : cs ++ '/' :: slashes = (cs ++ ['/']) ++ slashes := by simp
    have hone : names? (cs ++ ['/']) = names? cs := by
      rw [names?_append_slash]
      cases names? cs with
      | none => rfl
      | some names => simp [pieces, walk]
    rw [hrest, ih _ fun c hc => h c (List.mem_cons_of_mem _ hc), hone]

theorem names?_trimSlashes (cs : List Char) : names? (trimSlashes cs) = names? cs := by
  have hslashes : ∀ c ∈ (cs.reverse.takeWhile (· = '/')).reverse, c = '/' := by
    intro c hc
    simpa using List.all_eq_true.1 List.all_takeWhile c (List.mem_reverse.1 hc)
  have hwhole : trimSlashes cs ++ (cs.reverse.takeWhile (· = '/')).reverse = cs := by
    rw [trimSlashes, ← List.reverse_append, List.takeWhile_append_dropWhile, List.reverse_reverse]
  rw [← names?_append_slashes _ hslashes, hwhole]

/-! ### Search paths -/

/-- A search path below which every path is absolute: an absolute one, or the empty one. -/
def IsRooted (root : String) : Prop := root = "" ∨ isAbsolute root.toList = true

instance (root : String) : Decidable (IsRooted root) := inferInstanceAs (Decidable (_ ∨ _))

/-- A relative name below a search path is absolute exactly if the search path is rooted. -/
theorem isAbsolute_join_iff {root name : String} (hname : isAbsolute name.toList = false) :
    isAbsolute (join root name).toList = true ↔ IsRooted root := by
  constructor
  · intro h
    by_contra hroot
    obtain ⟨hempty, hrelative⟩ := not_or.1 hroot
    -- the first character of the search path is no slash, so that trimming leaves it there
    obtain ⟨c, cs, hcs⟩ := List.exists_cons_of_ne_nil
      (fun hnil => hempty (String.toList_eq_nil_iff.1 hnil) : root.toList ≠ [])
    have hc : c ≠ '/' := by
      rintro rfl
      exact hrelative (by rw [hcs]; rfl)
    have hkept : (trimSlashes (c :: cs)).head? = some c := by
      rw [trimSlashes, List.reverse_cons, List.dropWhile_append]
      split
      · simp [hc]
      · simp
    unfold join at h
    rw [hname, if_neg Bool.false_ne_true, String.toList_ofList, isAbsolute, hcs,
      List.head?_append, hkept] at h
    exact hc (by simpa using h)
  · rintro (rfl | hroot)
    · unfold join
      rw [hname, if_neg Bool.false_ne_true, String.toList_ofList]
      rfl
    · exact isAbsolute_join hroot name

/-- The names of a relative normal form below a search path. -/
theorem names?_join {names : List (List Char)} (hp : ∀ n ∈ names, Proper n)
    (hs : ∀ n ∈ names, '/' ∉ n) (root : String) :
    names? (join root (String.ofList (unite names))).toList =
      (names? root.toList).map (· ++ names) := by
  have hrelative : isAbsolute (unite names) = false := beq_eq_false_iff_ne.2 (head_unite hp hs)
  unfold join
  rw [String.toList_ofList, hrelative, if_neg Bool.false_ne_true, String.toList_ofList,
    names?_append_slash, names?_trimSlashes]
  cases names? root.toList with
  | none => rfl
  | some above =>
    rw [Option.bind_some, Option.map_some]
    by_cases hne : names = []
    · subst hne
      simp [unite, pieces, walk]
    · rw [pieces_unite hne hs, walk_of_proper hp, List.reverse_reverse]

theorem unite_inj {names others : List (List Char)} (hp : ∀ n ∈ names, Proper n)
    (hs : ∀ n ∈ names, '/' ∉ n) (hp' : ∀ n ∈ others, Proper n) (hs' : ∀ n ∈ others, '/' ∉ n)
    (h : unite names = unite others) : names = others := by
  have heq : some names = some others := by rw [← names?_unite hp hs, h, names?_unite hp' hs']
  exact Option.some.inj heq

/-- A search path adds nothing to a relative normal form if it has no names itself. -/
theorem normalize_join_self_of_not_rooted {names : List (List Char)} (hp : ∀ n ∈ names, Proper n)
    (hs : ∀ n ∈ names, '/' ∉ n) {root : String} (hroot : ¬ IsRooted root) :
    normalize (join root (String.ofList (unite names))) = some (String.ofList (unite names)) ↔
      normalize root = some "" := by
  have hslash := (not_or.1 hroot).2
  have hrelative : isAbsolute (String.ofList (unite names)).toList = false := by
    rw [String.toList_ofList]
    exact beq_eq_false_iff_ne.2 (head_unite hp hs)
  have hjoined : isAbsolute (join root (String.ofList (unite names))).toList = false :=
    eq_false_of_ne_true fun h => hroot ((isAbsolute_join_iff hrelative).1 h)
  unfold normalize
  dsimp only
  rw [names?_join hp hs root, hjoined, eq_false_of_ne_true hslash]
  simp only [Bool.false_eq_true, if_false, Option.map_map, Option.map_eq_some_iff,
    Function.comp_apply]
  refine exists_congr fun above => and_congr_right fun habove => ?_
  have hproper := walk_proper habove fun n hn => absurd hn List.not_mem_nil
  have hslashes : ∀ n ∈ above, '/' ∉ n := fun n hn =>
    slash_notMem_of_mem_pieces ((mem_of_walk habove hn).resolve_left List.not_mem_nil)
  constructor
  · intro h
    have hnone := unite_inj (List.forall_mem_append.2 ⟨hproper, hp⟩)
      (List.forall_mem_append.2 ⟨hslashes, hs⟩) hp hs (String.ofList_injective h)
    rw [List.append_left_eq_self] at hnone
    rw [hnone]
    rfl
  · intro h
    have hunited : unite above = unite [] := String.ofList_injective h
    have hnil : ∀ {p : List Char → Prop}, ∀ n ∈ ([] : List (List Char)), p n := nofun
    obtain rfl := unite_inj hproper hslashes hnil hnil hunited
    rfl

/-- **The search paths that add nothing to a relative normal form:** those that are not empty and
have no names, without a slash at their beginning. -/
theorem normalize_join_self {path : String} (hpath : normalize path = some path)
    (hrelative : isAbsolute path.toList = false) (root : String) :
    normalize (join root path) = some path ↔ root ≠ "" ∧ normalize root = some "" := by
  by_cases hroot : IsRooted root
  · -- below a root the path becomes absolute
    have hjoin : isAbsolute (join root path).toList = true := (isAbsolute_join_iff hrelative).2 hroot
    constructor
    · intro h
      have habsolute := isAbsolute_normalize h
      rw [hjoin, hrelative] at habsolute
      exact absurd habsolute Bool.false_ne_true
    · rintro ⟨hne, h⟩
      have habsolute := isAbsolute_normalize h
      rw [hroot.resolve_left hne] at habsolute
      exact absurd habsolute (by decide)
  · obtain ⟨names, hp, hs, heq⟩ := normalize_names hpath
    rw [hrelative, if_neg Bool.false_ne_true] at heq
    rw [heq, normalize_join_self_of_not_rooted hp hs hroot]
    exact (and_iff_right (not_or.1 hroot).1).symm

end Path

/-! ### Leading back -/

namespace Outlook

variable (o : Outlook) (lookup : String → Option Resource)

/-- What is kept under a name below a search path. -/
def below (root path : String) : Option Resource :=
  (Path.normalize (Path.join root path)).bind lookup

/-- The search path that a relative name is found below: the first with something under it. -/
def finding? (path : String) : Option String :=
  o.searchPaths.find? fun root => (below lookup root path).isSome

theorem answer_get_absolute {path : String} (h : Path.isAbsolute path.toList = true) :
    (o.get path).answer lookup = (Path.normalize path).bind lookup := by
  rw [get, if_pos h, Inquiry.answer_at?]

theorem answer_get_relative {path : String} (h : Path.isAbsolute path.toList = false) :
    (o.get path).answer lookup = (o.finding? lookup path).bind (below lookup · path) := by
  rw [get, if_neg (Bool.eq_false_iff.1 h), Inquiry.answer_first, List.filterMap_map, finding?]
  induction o.searchPaths with
  | nil => rfl
  | cons root rest ih =>
    rw [List.find?_cons, List.filterMap_cons]
    unfold below at ih ⊢
    cases hroot : Path.normalize (Path.join root path) with
    | none => simpa [hroot] using ih
    | some place =>
      cases hplace : lookup place with
      | none => simpa [hroot, hplace] using ih
      | some x => simp [hroot, hplace]

variable {o lookup}

/-- Something that is kept under a normal form bears it. -/
theorem kept_of_normalize (hlookup : Bears lookup) {path : String} {x : Resource}
    (h : (Path.normalize path).bind lookup = some x) :
    Path.normalize path = some x.path ∧ lookup x.path = some x := by
  obtain ⟨normal, hnormal, hfound⟩ := Option.bind_eq_some_iff.1 h
  obtain rfl := hlookup normal x hfound
  exact ⟨hnormal, hfound⟩

/-- What a name stands for is kept under its own path, and that path is a normal form. -/
theorem kept_of_answer (hlookup : Bears lookup) {p : String} {x : Resource}
    (h : (o.get p).answer lookup = some x) :
    Path.normalize x.path = some x.path ∧ lookup x.path = some x := by
  have hkept : ∀ {path : String}, (Path.normalize path).bind lookup = some x →
      Path.normalize x.path = some x.path ∧ lookup x.path = some x := fun hpath =>
    (kept_of_normalize hlookup hpath).imp_left Path.normalize_normal
  cases hp : Path.isAbsolute p.toList with
  | true => exact hkept (o.answer_get_absolute lookup hp ▸ h)
  | false =>
    rw [o.answer_get_relative lookup hp] at h
    obtain ⟨root, -, hroot⟩ := Option.bind_eq_some_iff.1 h
    exact hkept hroot

/-- The path of what was found is absolute if the name is, or if it was found below a rooted search
path. -/
theorem isAbsolute_of_answer_iff (hlookup : Bears lookup) {p : String} {x : Resource}
    (h : (o.get p).answer lookup = some x) :
    Path.isAbsolute x.path.toList = true ↔ Path.isAbsolute p.toList = true ∨
      ∃ root, o.finding? lookup p = some root ∧ Path.IsRooted root := by
  cases hp : Path.isAbsolute p.toList with
  | true =>
    rw [o.answer_get_absolute lookup hp] at h
    have hnormal := (kept_of_normalize hlookup h).1
    exact iff_of_true ((Path.isAbsolute_normalize hnormal).trans hp) (.inl rfl)
  | false =>
    rw [o.answer_get_relative lookup hp] at h
    obtain ⟨root, hroot, hbelow⟩ := Option.bind_eq_some_iff.1 h
    have hnormal := (kept_of_normalize hlookup hbelow).1
    rw [Path.isAbsolute_normalize hnormal, Path.isAbsolute_join_iff hp, hroot]
    simp

/-- **When the path of a resource leads back to it.** What a name stands for is found again under
its own path exactly if that path is absolute, or if the first search path below which something is
kept at it adds nothing to it. The path is absolute exactly if the name is, or if it was found below
a rooted search path; so where all search paths are rooted, everything is found again. -/
theorem own_path_leads_back (hlookup : Bears lookup) {p : String} {x : Resource}
    (h : (o.get p).answer lookup = some x) :
    ((o.get x.path).answer lookup = some x ↔ Path.isAbsolute x.path.toList = true ∨
      ∃ root, o.finding? lookup x.path = some root ∧ root ≠ "" ∧ Path.normalize root = some "") ∧
    (Path.isAbsolute x.path.toList = true ↔ Path.isAbsolute p.toList = true ∨
      ∃ root, o.finding? lookup p = some root ∧ Path.IsRooted root) ∧
    ((∀ root ∈ o.searchPaths, Path.IsRooted root) → (o.get x.path).answer lookup = some x) := by
  obtain ⟨hnormal, hkept⟩ := kept_of_answer hlookup h
  have habsolute := isAbsolute_of_answer_iff hlookup h
  have hback : (o.get x.path).answer lookup = some x ↔ Path.isAbsolute x.path.toList = true ∨
      ∃ root, o.finding? lookup x.path = some root ∧ root ≠ "" ∧
        Path.normalize root = some "" := by
    cases hx : Path.isAbsolute x.path.toList with
    | true =>
      rw [o.answer_get_absolute lookup hx, hnormal]
      exact iff_of_true hkept (.inl rfl)
    | false =>
      -- below a search path a relative path names itself, or something with another path
      have hsame : ∀ root, below lookup root x.path = some x ↔
          root ≠ "" ∧ Path.normalize root = some "" := by
        intro root
        rw [← Path.normalize_join_self hnormal hx root]
        constructor
        · exact fun hroot => (kept_of_normalize hlookup hroot).1
        · intro hroot
          rw [below, hroot]
          exact hkept
      rw [o.answer_get_relative lookup hx, Option.bind_eq_some_iff]
      simp [hsame]
  refine ⟨hback, habsolute, fun hrooted => hback.2 (.inl (habsolute.2 ?_))⟩
  cases hp : Path.isAbsolute p.toList with
  | true => exact .inl rfl
  | false =>
    rw [o.answer_get_relative lookup hp] at h
    obtain ⟨root, hroot, -⟩ := Option.bind_eq_some_iff.1 h
    exact .inr ⟨root, hroot, hrooted root (List.mem_of_find?_eq_some hroot)⟩

end Outlook

/-! ### A search path without a slash -/

/-- A directory with one script in a folder. -/
def Directory.shelf : Directory := Directory.empty.writeFile "/apps/lib.js" (some "lib")

/-- The directory below a search path without a slash, and below the place where one stands. -/
def Resolver.shelved : Resolver := ⟨⟨.directory .shelf, ["apps", "."]⟩, ".js"⟩

/-- A script below a search path without a slash is found again if a later search path adds nothing
to its path. -/
theorem Resolver.shelved_found_again :
    Resolver.shelved.repository.get "lib.js" = some ⟨"apps/lib.js", none, some "lib"⟩ ∧
    Resolver.shelved.repository.get "apps/lib.js" = some ⟨"apps/lib.js", none, some "lib"⟩ := by
  have hfound : Resolver.shelved.repository.get "lib.js" =
      some ⟨"apps/lib.js", none, some "lib"⟩ := by decide +kernel
  have hback := Outlook.own_path_leads_back (o := Resolver.shelved.outlook)
    (fun _ _ => Repository.path_of_lookup) ((Outlook.answer_get _ _).trans hfound)
  rw [Outlook.answer_get] at hback
  exact ⟨hfound, hback.1.2 (.inr ⟨".", by decide +kernel, by decide, by decide⟩)⟩

/-- **Below a search path without a slash alone it is not.** Its path lacks the slash as well, and
is taken for a name below the search path once more. -/
theorem Repository.slashless_not_found_again :
    (Repository.mk (.directory .shelf) ["apps"]).get "lib.js" =
      some ⟨"apps/lib.js", none, some "lib"⟩ ∧
    (Repository.mk (.directory .shelf) ["apps"]).get "apps/lib.js" = none := by
  decide +kernel

end ScriptModules
