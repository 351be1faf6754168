import ScriptModules.Proofs.Additions
import ScriptModules.Proofs.Resolution

/-!
# Names that lead out of the folder of the caller

A name that begins with `../` is meant next to the folder of the calling script, and it is sought
there if no driver leads elsewhere. It is a relative name like any other, though, so it is tried below
the search paths first, and below `/apps` the name `../util.js` is a path too.

The main statement, `Resolver.locate_above`, says what is chosen if something is kept at the place
next to the folder: what is kept first below a search path, and if there is nothing, what is kept at
that place. The folder itself need not be asked for. Directories have the folders that a way goes
through, and additions to memory make them, `Store.Arises.isSome_lookup_above`.
-/

namespace ScriptModules

open ScriptModules.Path

/-! ### Folders above what is kept -/

/-- A store as it comes about: a directory, or resources in memory that were added to the root. -/
inductive Store.Arises : Store → Prop
  | memory (history : List Addition) : Arises (.memory (.after history))
  | directory (d : Directory) : Arises (.directory d)

namespace Directory

variable {names : List (List Char)}

/-- The way to an absolute path goes through its names. -/
theorem way_absolute (hne : names ≠ []) (h : ∀ n ∈ names, IsName n) :
    way (absolute names) = names.map String.ofList := by
  have hclean : Clean (absolute names) :=
    normalize_clean (isNormalAbsolute_iff.2 ⟨names, h, rfl⟩).1
  rw [way, hclean.dropWhile, toList_absolute, belowTop_slash,
    pieces_unite hne fun n hn => (h n hn).2]

/-- A place that is left is a folder. -/
theorem isFolder_of_step {d : Directory} {p q : Place} {s : String} (h : d.step p s = some q) :
    d.isFolder p = true := by
  by_contra hnot
  rw [step, if_pos hnot] at h
  cases h

/-- **What is found below a folder was found through it.** -/
theorem isSome_lookup_of_below {d : Directory} (hnames : ∀ m ∈ names, IsName m) {n : List Char}
    (hn : IsName n) (h : (d.lookup (absolute (names ++ [n]))).isSome) :
    (d.lookup (absolute names)).isSome := by
  have hall : ∀ m ∈ names ++ [n], IsName m := by
    intro m hm
    rcases List.mem_append.1 hm with hm | hm
    · exact hnames m hm
    · obtain rfl := List.mem_singleton.1 hm
      exact hn
  rw [lookup, Option.isSome_map, locate_eq, way_absolute (by simp) hall, List.map_append,
    List.foldlM_append] at h
  rw [lookup, Option.isSome_map, locate_eq]
  obtain ⟨p, hp⟩ := Option.isSome_iff_exists.1 h
  obtain ⟨q, hq, hlast⟩ := Option.bind_eq_some_iff.1 hp
  by_cases hne : names = []
  · -- the way to the root is the empty step
    subst hne
    obtain rfl : Place.inside [] = q := Option.some.inj hq
    have hstep : d.step (.inside []) (String.ofList n) = some p := by simpa using hlast
    have hroot : d.step (.inside []) "" = some (.inside []) := by
      rw [step, if_neg (not_not.2 (isFolder_of_step hstep)), if_pos (.inl rfl)]
    have hway : way (absolute []) = [""] := rfl
    rw [hway, List.foldlM_cons, hroot]
    rfl
  · rw [way_absolute hne hnames, hq]
    rfl

end Directory

/-- **Above a path that something is kept under, something is kept as well.** -/
theorem Store.Arises.isSome_lookup_above {s : Store} (h : s.Arises) {path above : String}
    (hpath : IsNormalAbsolute path) (hfound : (s.lookup path).isSome)
    (habove : Path.parent path = some above) : (s.lookup above).isSome := by
  cases h with
  | memory history =>
    have hkeeps := (Memory.isSome_lookup_after_iff history path).1 hfound
    have hroot : path ≠ "/" := by
      rintro rfl
      cases habove.symm.trans (show Path.parent "/" = none by decide)
    obtain ⟨above', habove', hkept⟩ := hkeeps.exists_parent hroot
    obtain rfl := Option.some.inj (habove'.symm.trans habove)
    exact (Memory.isSome_lookup_after_iff history _).2 hkept
  | directory d =>
    obtain ⟨names, hnames, rfl⟩ := isNormalAbsolute_iff.1 hpath
    obtain rfl | ⟨front, n, rfl⟩ := List.eq_nil_or_concat' names
    · cases habove.symm.trans parent_absolute_nil
    · have hn : IsName n := hnames n (by simp)
      obtain rfl := Option.some.inj ((parent_absolute front hn).symm.trans habove)
      exact Directory.isSome_lookup_of_below (fun m hm => hnames m (List.mem_append_left _ hm)) hn
        hfound

/-- A path below which there is an absolute one is absolute. -/
theorem Path.isAbsolute_of_parent {path above : String} (h : Path.parent path = some above)
    (habove : isAbsolute above.toList = true) : isAbsolute path.toList = true := by
  -- a path begins as what stands before its last slash does
  have hbegin : ∀ before last rest : List Char, before.head? = some '/' ∨ before = [] →
      trimSlashes path.toList = before ++ '/' :: last → trimSlashes path.toList ++ rest = path.toList →
      isAbsolute path.toList = true := by
    intro before last rest hbefore hsplit hwhole
    rw [← hwhole, hsplit]
    rcases hbefore with hslash | rfl
    · obtain ⟨cs, rfl⟩ := List.head?_eq_some_iff.1 hslash
      rfl
    · rfl
  obtain ⟨rest, hrest⟩ := trimSlashes_append path.toList
  unfold Path.parent at h
  split at h
  · cases h
  · rename_i hbefore
    obtain ⟨last, hlast⟩ := splitLast_append hbefore
    exact hbegin [] last rest (.inr rfl) hlast hrest
  · rename_i before _ hbefore
    obtain rfl := Option.some.inj h
    obtain ⟨last, hlast⟩ := splitLast_append hbefore
    rw [String.toList_ofList] at habove
    exact hbegin before last rest (.inl (by simpa [isAbsolute] using habove)) hlast hrest

/-- No path lies above another and is empty. -/
theorem Path.parent_ne_empty {path above : String} (h : Path.parent path = some above) :
    above ≠ "" := by
  unfold Path.parent at h
  split at h
  · cases h
  · obtain rfl := Option.some.inj h
    decide
  · rename_i before hne _
    obtain rfl := Option.some.inj h
    intro hempty
    exact hne (String.ofList_eq_empty_iff.1 hempty)

/-! ### The choice -/

/-- What is kept below a search path under a relative name. -/
def Repository.keptBelow (r : Repository) (name root : String) : Option Resource :=
  (Path.normalize (Path.join root name)).bind r.lookup

/-- A relative name stands for what is kept first below a search path. -/
theorem Repository.get_of_relative (r : Repository) {name : String}
    (h : isAbsolute name.toList = false) :
    r.get name = r.searchPaths.findSome? (r.keptBelow name) := by
  rw [Repository.get, Repository.candidates, if_neg (by rw [h]; decide)]
  induction r.searchPaths with
  | nil => rfl
  | cons root rest ih =>
    rw [List.filterMap_cons, List.findSome?_cons, ← ih, Repository.keptBelow]
    cases Path.normalize (Path.join root name) with
    | none => rfl
    | some path => exact List.findSome?_cons

namespace Resolver

variable (r : Resolver) {name dependency folder place : String} {caller x : Resource}

/-- Without a driver, a relative name is sought below the search paths and then next to the folder of
the caller. -/
theorem value_locate_of_place (hstore : r.repository.store.Arises)
    (hcaller : r.repository.get name = some caller)
    (hdependency : isAbsolute dependency.toList = false)
    (hfolder : Path.parent caller.path = some folder)
    (hplace : Path.normalize (Path.join folder dependency) = some place)
    (habsolute : isAbsolute place.toList = true) (hx : r.repository.lookup place = some x) :
    (r.locate ⟨some name, none⟩ dependency).value = (r.repository.get dependency).or (some x) := by
  have hfolderAbsolute : isAbsolute folder.toList = true := by
    rw [isAbsolute_normalize hplace] at habsolute
    exact ((isAbsolute_join_iff hdependency).1 habsolute).resolve_left (parent_ne_empty hfolder)
  obtain ⟨hkept, hnormal⟩ := Repository.kept_of_get hcaller
  -- the folder is there, since it is above what is kept
  obtain ⟨callerType, hcallerType⟩ := Option.isSome_iff_exists.1
    (hstore.isSome_lookup_above ⟨hnormal, isAbsolute_of_parent hfolder hfolderAbsolute⟩
      (Option.isSome_of_eq_some hkept) hfolder)
  have hparent : r.repository.parent caller = some callerType := by
    rw [Repository.parent, hfolder]
    exact hcallerType
  have htype : r.repository.callerType? ⟨some name, none⟩ = some callerType := by
    rw [Repository.callerType?, Option.bind_some, hcaller, Option.bind_some, hparent]
  obtain ⟨nodes, hnodes, hvalue⟩ := r.locate_eq ⟨some name, none⟩ dependency
  obtain rfl : nodes = [callerType] := Repository.Searches.unique (.aside htype nofun) hnodes
  have hpath : callerType.path = folder := Repository.path_of_lookup hcallerType
  rw [hvalue, Repository.places, List.findSome?_append, List.flatMap_singleton,
    Repository.placesNextTo_of_isAbsolute (hpath ▸ hfolderAbsolute), hpath, hplace,
    Option.toList_some, List.findSome?_singleton, hx]
  rfl

/-- **What a name that leads out of the caller's folder stands for.** No driver is given, and at the
place that the name has next to the folder of the caller something is kept. Then this is chosen,
unless the name, taken out of some search path, is that of something kept: the first search path for
which it is decides. The answer is about what is chosen, if the name is that of a script. -/
theorem locate_above (name dependency : String) (caller x : Resource) {folder place : String}
    (hstore : r.repository.store.Arises)
    (hcaller : r.repository.get name = some caller)
    (hdots : "../".toList <+: dependency.toList)
    (hfolder : Path.parent caller.path = some folder)
    (hplace : Path.normalize (Path.join folder dependency) = some place)
    (habsolute : isAbsolute place.toList = true) (hx : r.repository.lookup place = some x) :
    let chosen := (r.locate ⟨some name, none⟩ dependency).value
    ((∀ root ∈ r.repository.searchPaths, r.repository.keptBelow dependency root = none) →
      chosen = some x) ∧
    (∀ before root after y, r.repository.searchPaths = before ++ root :: after →
      (∀ earlier ∈ before, r.repository.keptBelow dependency earlier = none) →
      r.repository.keptBelow dependency root = some y → chosen = some y) ∧
    (r.resolve ⟨some name, none⟩ dependency).value =
      if isScriptName r.extension dependency then answerFor dependency chosen
      else .error (.unsupportedDependency dependency) := by
  have hrelative : isAbsolute dependency.toList = false := by
    obtain ⟨rest, hrest⟩ := hdots
    rw [← hrest]
    rfl
  dsimp only
  have hchosen := r.value_locate_of_place hstore hcaller hrelative hfolder hplace habsolute hx
  refine ⟨fun hnone => ?_, fun before root after y hsplit hearlier hy => ?_, ?_⟩
  · rw [hchosen, Repository.get_of_relative _ hrelative, List.findSome?_eq_none_iff.2 hnone]
    rfl
  · have hfirst : r.repository.get dependency = some y := by
      rw [Repository.get_of_relative _ hrelative]
      exact List.findSome?_eq_some_iff.2 ⟨before, root, after, hsplit, hy, hearlier⟩
    rw [hchosen, hfirst]
    rfl
  · split
    · rename_i hname
      exact r.value_resolve hname _
    · rename_i hname
      rw [resolve, if_pos hname]
      rfl

end Resolver

/-- A script, and another one next to its folder. -/
def neighbours : List Addition :=
  [.script "/apps/app/foo/bar.js" "", .script "/apps/app/util.js" "'next'"]

/-- A resolver over what is in memory after some additions. -/
def Resolver.inMemory (history : List Addition) : Resolver :=
  ⟨⟨.memory (.after history), ["/apps", "/libs"]⟩, ".js"⟩

/-- The script next to the folder of the caller is the answer, as nothing is kept at the root. -/
theorem Resolver.neighbour_found :
    ((Resolver.inMemory neighbours).resolve ⟨some "/apps/app/foo/bar.js", none⟩ "../util.js").value =
      .ok ⟨"/apps/app/util.js", "'next'"⟩ := by
  have hfolder : Path.parent "/apps/app/foo/bar.js" = some "/apps/app/foo" := by decide
  have hplace : Path.normalize (Path.join "/apps/app/foo" "../util.js") =
      some "/apps/app/util.js" := by decide
  obtain ⟨hchosen, -, hanswer⟩ := (Resolver.inMemory neighbours).locate_above
    "/apps/app/foo/bar.js" "../util.js" ⟨"/apps/app/foo/bar.js", none, some ""⟩
    ⟨"/apps/app/util.js", none, some "'next'"⟩ (.memory _) (by decide +kernel) (by decide) hfolder
    hplace (by decide) (by decide +kernel)
  rw [hanswer, hchosen (by decide +kernel)]
  rfl

/-- **What is kept at the root comes before the place next to the caller's folder,** since below the
search path `/apps` the name leads to the root. -/
theorem Resolver.root_overrides_neighbour :
    let r := Resolver.inMemory (neighbours ++ [.script "/util.js" "'above'"])
    r.repository.get "/apps/app/foo/bar.js" = some ⟨"/apps/app/foo/bar.js", none, some ""⟩ ∧
    Path.parent "/apps/app/foo/bar.js" = some "/apps/app/foo" ∧
    Path.normalize (Path.join "/apps/app/foo" "../util.js") = some "/apps/app/util.js" ∧
    r.repository.lookup "/apps/app/util.js" = some ⟨"/apps/app/util.js", none, some "'next'"⟩ ∧
    (r.resolve ⟨some "/apps/app/foo/bar.js", none⟩ "../util.js").value =
      .ok ⟨"/util.js", "'above'"⟩ := by
  refine ⟨by decide +kernel, by decide, by decide, by decide +kernel, ?_⟩
  have hlocate : ((Resolver.inMemory (neighbours ++ [.script "/util.js" "'above'"])).locate
      ⟨some "/apps/app/foo/bar.js", none⟩ "../util.js").value =
      some ⟨"/util.js", none, some "'above'"⟩ := by decide +kernel
  rw [Resolver.value_resolve _ (by decide), hlocate]
  rfl

end ScriptModules
