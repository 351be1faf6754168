import ScriptModules.Module.Resolve
import ScriptModules.Proofs.CleanPaths
import Mathlib.Data.List.Chain
import Mathlib.Data.List.Nodup
import Mathlib.Data.List.Perm.Subperm
import Mathlib.Data.List.ProdSigma
import Mathlib.Logic.Relation

/-!
# Supertypes

Each resource names at most one supertype, so from a resource one line of supertypes leads on. It
ends where no supertype is named or found, or where a path comes back. A `Lineage` is such a line up
to its end, and there is exactly one from each resource.

A store keeps resources under no more normal paths than its size (`Store.length_le_size`), and each
node of a line behind the first was found under a normal path. This is why the chain that a resolver
follows is the whole lineage (`Repository.superChain_lineage`), and why something is among the
supertypes of a resource exactly if the resolver finds it there (`Repository.inherits_iff`).
-/

namespace ScriptModules

/-! ### How many paths a store knows -/

namespace Directory

/-- The names on the way to a path. -/
def namesAt (path : String) : List String := (way path).filter (· ≠ "")

/-- The names on the way to a normal form are the names that it is made of. -/
theorem namesAt_unite {names : List (List Char)} (hp : ∀ n ∈ names, Path.Proper n)
    (hs : ∀ n ∈ names, '/' ∉ n) {normal : String} (hclean : Path.Clean normal)
    (hbelow : Path.belowTop normal.toList = Path.unite names) :
    namesAt normal = names.map String.ofList := by
  rw [namesAt, way, hclean.dropWhile, hbelow]
  by_cases hne : names = []
  · subst hne
    rfl
  · rw [Path.pieces_unite hne hs, List.filter_eq_self]
    intro s hsmem
    obtain ⟨n, hn, rfl⟩ := List.mem_map.1 hsmem
    refine decide_eq_true fun hempty => (hp n hn).1 ?_
    exact String.ofList_injective hempty

/-- **Two normal forms are the same** if they have the same names and begin alike. -/
theorem normal_ext {p q : String} (hp : Path.normalize p = some p) (hq : Path.normalize q = some q)
    (hnames : namesAt p = namesAt q)
    (habsolute : Path.isAbsolute p.toList = Path.isAbsolute q.toList) : p = q := by
  obtain ⟨ps, hpp, hps, hpeq⟩ := Path.normalize_names hp
  obtain ⟨qs, hqp, hqs, hqeq⟩ := Path.normalize_names hq
  have hpbelow : Path.belowTop p.toList = Path.unite ps :=
    (congrArg (fun t : String => Path.belowTop t.toList) hpeq).trans
      (Path.belowTop_unite hpp hps _)
  have hqbelow : Path.belowTop q.toList = Path.unite qs :=
    (congrArg (fun t : String => Path.belowTop t.toList) hqeq).trans
      (Path.belowTop_unite hqp hqs _)
  rw [namesAt_unite hpp hps (Path.normalize_clean hp) hpbelow,
    namesAt_unite hqp hqs (Path.normalize_clean hq) hqbelow] at hnames
  obtain rfl : ps = qs := List.map_injective_iff.2 (fun _ _ => String.ofList_injective) hnames
  rw [hpeq, hqeq, habsolute]

/-- A step that is not made of dots leads to something that the directory has. -/
theorem find?_of_step {d : Directory} {names inner : List String} {s : String}
    (hs : s ≠ "." ∧ s ≠ "..") (h : d.step (.inside names) s = some (.inside inner)) :
    (d.find? inner).isSome := by
  unfold step at h
  split at h
  · cases h
  · rename_i hfolder
    split at h
    · obtain rfl : names = inner := Place.inside.inj (Option.some.inj h)
      have hfound : d.find? names = some .folder := by simpa [isFolder] using hfolder
      rw [hfound]
      rfl
    · rw [if_neg hs.2] at h
      unfold enter at h
      dsimp only at h
      split at h
      · rename_i hfound
        obtain rfl : names ++ [s] = inner := Place.inside.inj (Option.some.inj h)
        exact hfound
      · cases h

/-- **What is found at a normal path is an entry** under the names of that path. -/
theorem namesAt_mem {d : Directory} {path : String} (hp : Path.normalize path = some path)
    (h : (d.lookup path).isSome) : namesAt path ∈ d.entries.map (·.1) := by
  have hclean : Path.Clean path := Path.normalize_clean hp
  obtain ⟨x, hx⟩ := Option.isSome_iff_exists.1 h
  obtain ⟨p, hlocate, -⟩ := Option.map_eq_some_iff.1 hx
  rw [locate_eq] at hlocate
  obtain rfl : p = .inside (namesAt path) :=
    stays_inside hclean d (List.prefix_refl _) hlocate
  -- a way has a last step, and this is where the entry is met
  have hne : way path ≠ [] := fun hnil => Path.pieces_ne_nil _ (List.map_eq_nil_iff.1 hnil)
  have hlast : (way path).dropLast ++ [(way path).getLast hne] = way path :=
    List.dropLast_append_getLast hne
  rw [← hlast, List.foldlM_append] at hlocate
  obtain ⟨q, hq, hstep⟩ := Option.bind_eq_some_iff.1 hlocate
  have hstep : d.step q ((way path).getLast hne) = some (.inside (namesAt path)) := by
    simpa using hstep
  rw [stays_inside hclean d (List.dropLast_prefix _) hq] at hstep
  have hfound : (d.find? (namesAt path)).isSome :=
    find?_of_step (way_ne_dots hclean (List.getLast_mem hne)) hstep
  obtain ⟨e, he⟩ := Option.isSome_iff_exists.1 hfound
  obtain ⟨entry, hentry, -⟩ := Option.map_eq_some_iff.1 he
  have hnames : entry.1 = namesAt path := by simpa using List.find?_some hentry
  exact List.mem_map.2 ⟨entry, List.mem_of_find?_eq_some hentry, hnames⟩

end Directory

/-- **A store keeps resources under no more normal paths than its size.** -/
theorem Store.length_le_size (s : Store) {paths : List String} (hdistinct : paths.Nodup)
    (hnormal : ∀ p ∈ paths, Path.normalize p = some p)
    (hkept : ∀ p ∈ paths, (s.lookup p).isSome) : paths.length ≤ s.size := by
  cases s with
  | memory m =>
    have hsub : paths ⊆ m.resources.map (·.path) := by
      intro p hp
      obtain ⟨x, hx⟩ := Option.isSome_iff_exists.1 (hkept p hp)
      exact List.mem_map.2 ⟨x, List.mem_of_find?_eq_some hx, Memory.path_of_lookup hx⟩
    have hlength := (hdistinct.subperm hsub).length_le
    rwa [List.length_map] at hlength
  | directory d =>
    -- a path is told by its names and by whether it begins with a slash
    let code : String → Bool × List String := fun p => (Path.isAbsolute p.toList, Directory.namesAt p)
    have hcodes : (paths.map code).Nodup := by
      refine List.Nodup.map_on (fun p hp q hq hcode => ?_) hdistinct
      obtain ⟨habsolute, hnames⟩ := Prod.mk.inj hcode
      exact Directory.normal_ext (hnormal p hp) (hnormal q hq) hnames habsolute
    have hsub : paths.map code ⊆ [true, false].product (d.entries.map (·.1)) := by
      intro c hc
      obtain ⟨p, hp, rfl⟩ := List.mem_map.1 hc
      have hmem : Directory.namesAt p ∈ d.entries.map (·.1) :=
        Directory.namesAt_mem (hnormal p hp) (hkept p hp)
      refine List.pair_mem_product.2 ⟨?_, hmem⟩
      cases Path.isAbsolute p.toList <;> decide
    have hlength := (hcodes.subperm hsub).length_le
    have hproduct : ([true, false].product (d.entries.map (·.1))).length = 2 * d.entries.length := by
      rw [← List.length_map (fun e : List String × Entry => e.1)]
      exact List.length_product [true, false] (d.entries.map (·.1))
    rw [List.length_map, hproduct] at hlength
    exact hlength

namespace Repository

variable (r : Repository)

/-! ### Lineages -/

/-- The resource leads on to its supertype. -/
def LeadsTo (x y : Resource) : Prop := r.superTypeOf x = some y

/-- **The line of supertypes from a resource,** nearest first, up to its end or to the first path
that comes back. -/
structure Lineage (start : Resource) (nodes : List Resource) : Prop where
  /-- It begins with the resource. -/
  head : nodes.head? = some start
  /-- Behind each node stands its supertype. -/
  linked : nodes.IsChain r.LeadsTo
  /-- No path is met twice. -/
  distinct : (nodes.map (·.path)).Nodup
  /-- It goes on for as long as there is a supertype with another path. -/
  complete : ∀ last ∈ nodes.getLast?, ∀ y, r.LeadsTo last y → y.path ∈ nodes.map (·.path)

/-- A resource that the repository keeps under its path. -/
def Kept (x : Resource) : Prop := r.lookup x.path = some x

variable {r}

theorem kept_of_lookup {path : String} {x : Resource} (h : r.lookup path = some x) : r.Kept x := by
  rw [Kept, path_of_lookup h]
  exact h

/-- What a name stands for is kept under a normal path. -/
theorem kept_of_get {path : String} {x : Resource} (h : r.get path = some x) :
    r.Kept x ∧ Path.normalize x.path = some x.path := by
  obtain ⟨candidate, hcandidate, hx⟩ := List.exists_of_findSome?_eq_some h
  refine ⟨kept_of_lookup hx, ?_⟩
  rw [path_of_lookup hx]
  unfold candidates at hcandidate
  split at hcandidate
  · exact Path.normalize_normal (Option.mem_toList.1 hcandidate)
  · obtain ⟨root, -, hnormal⟩ := List.mem_filterMap.1 hcandidate
    exact Path.normalize_normal hnormal

theorem kept_of_leadsTo {x y : Resource} (h : r.LeadsTo x y) :
    r.Kept y ∧ Path.normalize y.path = some y.path := by
  obtain ⟨name, -, hy⟩ := Option.bind_eq_some_iff.1 h
  exact kept_of_get hy

/-- Each node of a line behind the first is led to. -/
theorem leadsTo_of_mem_tail {nodes : List Resource} (h : nodes.IsChain r.LeadsTo) {y : Resource}
    (hy : y ∈ nodes.tail) : ∃ x ∈ nodes, r.LeadsTo x y := by
  induction nodes with
  | nil => cases hy
  | cons x nodes ih =>
    cases nodes with
    | nil => cases hy
    | cons z nodes =>
      rw [List.isChain_cons_cons] at h
      rcases List.mem_cons.1 hy with rfl | hy
      · exact ⟨x, List.mem_cons_self, h.1⟩
      · obtain ⟨x', hx', hlead⟩ := ih h.2 hy
        exact ⟨x', List.mem_cons_of_mem _ hx', hlead⟩

/-- A line that repeats no path has at most one node more than the store has room for. -/
theorem length_le_of_isChain {nodes : List Resource} (hlinked : nodes.IsChain r.LeadsTo)
    (hdistinct : (nodes.map (·.path)).Nodup) : nodes.length ≤ r.store.size + 1 := by
  have hkept : ∀ p ∈ nodes.tail.map (·.path),
      Path.normalize p = some p ∧ (r.store.lookup p).isSome := by
    intro p hp
    obtain ⟨y, hy, rfl⟩ := List.mem_map.1 hp
    obtain ⟨x, -, hlead⟩ := leadsTo_of_mem_tail hlinked hy
    obtain ⟨hkept, hnormal⟩ := kept_of_leadsTo hlead
    exact ⟨hnormal, Option.isSome_iff_exists.2 ⟨y, hkept⟩⟩
  have htail : (nodes.tail.map (·.path)).Nodup := by
    rw [List.map_tail]
    exact hdistinct.sublist (List.tail_sublist _)
  have hlength := r.store.length_le_size htail (fun p hp => (hkept p hp).1)
    (fun p hp => (hkept p hp).2)
  rw [List.length_map, List.length_tail] at hlength
  omega

/-- What is known of a chain whose beginning is a path that was not met: at most `fuel` nodes of a
line that repeats neither a path of its own nor one in `met`. -/
structure Stretch (r : Repository) (fuel : Nat) (met : List String) (start : Resource)
    (nodes : List Resource) : Prop where
  head : nodes.head? = some start
  linked : nodes.IsChain r.LeadsTo
  distinct : (nodes.map (·.path)).Nodup
  apart : ∀ y ∈ nodes, y.path ∉ met
  ending : nodes.length = fuel ∨ ∀ last ∈ nodes.getLast?, ∀ y, r.LeadsTo last y →
    y.path ∈ met ∨ y.path ∈ nodes.map (·.path)

/-- A node alone, if no other path follows. -/
theorem Stretch.single {fuel : Nat} {met : List String} {x : Resource} (hx : x.path ∉ met)
    (hend : 1 = fuel ∨ ∀ y, r.LeadsTo x y → y.path ∈ x.path :: met) :
    r.Stretch fuel met x [x] where
  head := rfl
  linked := .singleton x
  distinct := List.nodup_singleton _
  apart := fun y hy => List.mem_singleton.1 hy ▸ hx
  ending := by
    refine hend.imp_right fun hnext last hlast y hy => ?_
    obtain rfl : x = last := Option.some.inj hlast
    exact (List.mem_cons.1 (hnext y hy)).symm.imp_right fun h => List.mem_singleton.2 h

/-- A node in front of the chain from its supertype. -/
theorem Stretch.cons {fuel : Nat} {met : List String} {x y : Resource} {nodes : List Resource}
    (hx : x.path ∉ met) (hlead : r.LeadsTo x y) (h : r.Stretch fuel (x.path :: met) y nodes) :
    r.Stretch (fuel + 1) met x (x :: nodes) where
  head := rfl
  linked := by
    refine List.isChain_cons.2 ⟨fun z hz => ?_, h.linked⟩
    obtain rfl : y = z := Option.some.inj (h.head.symm.trans hz)
    exact hlead
  distinct := by
    refine List.nodup_cons.2 ⟨fun hmem => ?_, h.distinct⟩
    obtain ⟨z, hz, hpath⟩ := List.mem_map.1 hmem
    exact h.apart z hz (hpath ▸ List.mem_cons_self)
  apart := by
    intro z hz
    rcases List.mem_cons.1 hz with rfl | hz
    · exact hx
    · exact fun hmem => h.apart z hz (List.mem_cons_of_mem _ hmem)
  ending := by
    refine h.ending.imp (congrArg (· + 1)) fun hnext last hlast z hz => ?_
    have hne : nodes ≠ [] := fun hnil => by
      have hhead := h.head
      rw [hnil] at hhead
      cases hhead
    rw [List.getLast?_cons_of_ne_nil hne] at hlast
    rw [List.map_cons, List.mem_cons]
    -- what the last node leads to was met before, and the new node counts as met now
    rcases hnext last hlast z hz with hmet | hmem
    · rcases List.mem_cons.1 hmet with hback | hmet
      · exact .inr (.inl hback)
      · exact .inl hmet
    · exact .inr (.inr hmem)

theorem chainFrom_stretch (r : Repository) (fuel : Nat) (met : List String) (x : Resource)
    (hx : x.path ∉ met) :
    r.Stretch (fuel + 1) met x (r.chainFrom (fuel + 1) met x).nodes := by
  induction fuel generalizing met x with
  | zero =>
    have hnodes : (r.chainFrom 1 met x).nodes = [x] := by
      unfold chainFrom
      rw [if_neg fun h => hx (List.contains_iff_mem.1 h)]
      cases r.superTypeOf x <;> rfl
    rw [hnodes]
    exact .single hx (.inl rfl)
  | succ fuel ih =>
    unfold chainFrom
    rw [if_neg fun h => hx (List.contains_iff_mem.1 h)]
    cases hsuper : r.superTypeOf x with
    | none =>
      refine .single hx (.inr fun y hy => ?_)
      cases hsuper.symm.trans hy
    | some y =>
      dsimp only
      by_cases hy : y.path ∈ x.path :: met
      · -- the next path has been met, so that the stretch ends here
        have hend : (r.chainFrom (fuel + 1) (x.path :: met) y).nodes = [] := by
          unfold chainFrom
          rw [if_pos (List.contains_iff_mem.2 hy)]
        rw [hend]
        refine .single hx (.inr fun z hz => ?_)
        obtain rfl : y = z := Option.some.inj (hsuper.symm.trans hz)
        exact hy
      · exact .cons hx hsuper (ih (x.path :: met) y hy)

/-- **The chain that is followed is the whole lineage:** it ends before its fuel does. -/
theorem superChain_lineage (r : Repository) (x : Resource) :
    r.Lineage x (r.superChain x).nodes := by
  have h := r.chainFrom_stretch (r.store.size + 1) [] x List.not_mem_nil
  refine ⟨h.head, h.linked, h.distinct, ?_⟩
  rcases h.ending with hlength | hcomplete
  · have hbound := length_le_of_isChain h.linked h.distinct
    omega
  · intro last hlast y hy
    exact (hcomplete last hlast y hy).resolve_left List.not_mem_nil

/-- Of two lines from one resource one is the beginning of the other. -/
theorem prefix_or_prefix {xs ys : List Resource} (hxs : xs.IsChain r.LeadsTo)
    (hys : ys.IsChain r.LeadsTo) (hhead : xs.head? = ys.head?) : xs <+: ys ∨ ys <+: xs := by
  induction xs generalizing ys with
  | nil => exact .inl List.nil_prefix
  | cons x xs ih =>
    cases ys with
    | nil => cases hhead
    | cons y ys =>
      obtain rfl : x = y := Option.some.inj hhead
      rw [List.isChain_cons] at hxs hys
      rw [List.prefix_cons_inj, List.prefix_cons_inj]
      cases xs with
      | nil => exact .inl List.nil_prefix
      | cons x' xs =>
        cases ys with
        | nil => exact .inr List.nil_prefix
        | cons y' ys =>
          refine ih hxs.2 hys.2 ?_
          exact (hxs.1 x' rfl).symm.trans (hys.1 y' rfl)

theorem Lineage.ne_nil {x : Resource} {nodes : List Resource} (h : r.Lineage x nodes) :
    nodes ≠ [] := by
  rintro rfl
  cases h.head

/-- A lineage is no proper beginning of another: its next node would repeat a path. -/
theorem Lineage.eq_of_prefix {x : Resource} {nodes others : List Resource}
    (h : r.Lineage x nodes) (h' : r.Lineage x others) (hfront : nodes <+: others) :
    nodes = others := by
  obtain ⟨rest, rfl⟩ := hfront
  cases rest with
  | nil => exact (List.append_nil nodes).symm
  | cons y rest =>
    have hlast : nodes.getLast? = some (nodes.getLast h.ne_nil) := List.getLast?_eq_some_getLast _
    have hlead : r.LeadsTo (nodes.getLast h.ne_nil) y :=
      (List.isChain_append.1 h'.linked).2.2 _ hlast y rfl
    have hback : y.path ∈ nodes.map (·.path) := h.complete _ hlast y hlead
    have hdistinct := h'.distinct
    rw [List.map_append, List.map_cons] at hdistinct
    exact (List.disjoint_of_nodup_append hdistinct hback List.mem_cons_self).elim

/-- **There is one lineage from a resource.** -/
theorem Lineage.unique {x : Resource} {nodes others : List Resource}
    (h : r.Lineage x nodes) (h' : r.Lineage x others) : nodes = others := by
  rcases prefix_or_prefix h.linked h'.linked (h.head.trans h'.head.symm) with hfront | hfront
  · exact h.eq_of_prefix h' hfront
  · exact (h'.eq_of_prefix h hfront).symm

/-! ### Supertypes -/

/-- The resource, or one of its supertypes, has the path of the other resource. -/
def Inherits (r : Repository) (x ancestor : Resource) : Prop :=
  ∃ y, Relation.ReflTransGen r.LeadsTo x y ∧ y.path = ancestor.path

/-- The nodes of a line are supertypes of the resource that it begins with. -/
theorem leadsTo_of_mem {x y : Resource} {nodes : List Resource} (hhead : nodes.head? = some x)
    (hlinked : nodes.IsChain r.LeadsTo) (hy : y ∈ nodes) :
    Relation.ReflTransGen r.LeadsTo x y := by
  induction nodes generalizing x with
  | nil => cases hy
  | cons z nodes ih =>
    obtain rfl : z = x := Option.some.inj hhead
    rw [List.isChain_cons] at hlinked
    rcases List.mem_cons.1 hy with rfl | hy
    · exact .refl
    · obtain ⟨z', rest, rfl⟩ := List.exists_cons_of_ne_nil (List.ne_nil_of_mem hy)
      exact .head (hlinked.1 z' rfl) (ih rfl hlinked.2 hy)

/-- Whatever a kept resource leads to is kept. -/
theorem Kept.of_leadsTo {x y : Resource} (hx : r.Kept x)
    (hy : Relation.ReflTransGen r.LeadsTo x y) : r.Kept y := by
  cases hy with
  | refl => exact hx
  | tail _ hlead => exact (kept_of_leadsTo hlead).1

/-- **Every supertype of a kept resource is in its lineage.** A path that comes back is that of a
node, and a repository keeps one resource under it. -/
theorem Lineage.mem_of_leadsTo {x y : Resource} {nodes : List Resource} (h : r.Lineage x nodes)
    (hx : r.Kept x) (hy : Relation.ReflTransGen r.LeadsTo x y) : y ∈ nodes := by
  induction hy with
  | refl => exact List.mem_of_mem_head? h.head
  | @tail y z hxy hlead ih =>
    obtain ⟨before, after, hsplit⟩ := List.append_of_mem ih
    have hlinked := h.linked
    rw [hsplit] at hlinked
    cases after with
    | nil =>
      -- behind the last node a path comes back, and the resource that has it is a node
      have hlast : nodes.getLast? = some y := by rw [hsplit, List.getLast?_concat]
      obtain ⟨z', hz', hpath⟩ := List.mem_map.1 (h.complete y hlast z hlead)
      have hkept' : r.Kept z' := hx.of_leadsTo (leadsTo_of_mem h.head h.linked hz')
      have hkept : r.Kept z := (kept_of_leadsTo hlead).1
      rw [Kept, hpath, hkept] at hkept'
      obtain rfl := Option.some.inj hkept'
      exact hz'
    | cons z' after =>
      have hnext : r.LeadsTo y z' :=
        (List.isChain_cons.1 (List.isChain_append.1 hlinked).2.1).1 z' rfl
      obtain rfl : z' = z := Option.some.inj (hnext.symm.trans hlead)
      rw [hsplit]
      exact List.mem_append_right _ (List.mem_cons_of_mem _ List.mem_cons_self)

/-- **A kept resource inherits from another exactly if the other's path is met on its chain.** -/
theorem inherits_iff {x ancestor : Resource} (hx : r.Kept x) :
    r.Inherits x ancestor ↔ (r.superChain x).nodes.any (fun y => y.path = ancestor.path) := by
  have h := r.superChain_lineage x
  rw [List.any_eq_true]
  constructor
  · rintro ⟨y, hy, hpath⟩
    exact ⟨y, h.mem_of_leadsTo hx hy, decide_eq_true hpath⟩
  · rintro ⟨y, hy, hpath⟩
    exact ⟨y, leadsTo_of_mem h.head h.linked hy, of_decide_eq_true hpath⟩

end Repository

end ScriptModules
