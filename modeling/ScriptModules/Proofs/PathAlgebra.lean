import ScriptModules.Proofs.Reconciliation

/-!
# The algebra of paths

Paths are normalized, joined, taken apart and seen from one another, and each of these functions has a
rule of its own for slashes at the beginning, at the end and next to each other. They agree, since all of
them mean the same by a path: its segments, which are the texts between slashes that are not empty.

* `walk_eq_none_iff`: a walk along pieces fails exactly where it has gone up more often than down.
* `normalize_join`: what is joined to a path depends on its normal form only.
* `join_parent_name`: a normal path is put together from the path above it and its name.
* `relativeTo_absolute_eq_some_iff`: one normal path is seen from another exactly if its segments go on
  from those of the other.

Between names and texts stands `trail`, the names with a slash before each of them. It is a normal path
without slashes at its end, and for the root it is empty, so the root needs no case of its own.
-/

namespace ScriptModules.Path

/-! ### Segments -/

/-- **The segments of a path:** the texts between its slashes, without the empty ones. -/
def segments (path : String) : List (List Char) := (pieces path.toList).filter (· ≠ [])

/-- A walk passes over empty pieces. -/
theorem walk_filter (above ps : List (List Char)) :
    walk above (ps.filter (· ≠ [])) = walk above ps := by
  induction ps generalizing above with
  | nil => rfl
  | cons p ps ih =>
    by_cases hp : p = []
    · have hempty : walk above (p :: ps) = walk above ps := if_pos (.inl hp)
      rw [List.filter_cons_of_neg (by simpa using hp), ih, hempty]
    · rw [List.filter_cons_of_pos (by simpa using hp)]
      simp only [walk, ih]

theorem names?_eq_walk_segments (path : String) : names? path.toList = walk [] (segments path) :=
  (walk_filter [] (pieces path.toList)).symm

/-- **A walk fails where it has gone up more often than down.** The names that it begins with are steps
down that were made before. -/
theorem walk_eq_none_iff {above ps : List (List Char)} :
    walk above ps = none ↔ ∃ front, front <+: ps ∧
      above.length + front.countP (Proper ·) < front.count ['.', '.'] := by
  induction ps generalizing above with
  | nil =>
    constructor
    · intro h
      cases h
    · rintro ⟨front, hfront, hlt⟩
      rw [List.prefix_nil.1 hfront] at hlt
      exact absurd hlt (Nat.not_lt_zero _)
  | cons p ps ih =>
    -- nothing has gone up in the empty beginning, so the first piece is in the one that is sought
    have hfirst : (∃ front, front <+: p :: ps ∧
          above.length + front.countP (Proper ·) < front.count ['.', '.']) ↔
        ∃ front, front <+: ps ∧
          above.length + (p :: front).countP (Proper ·) < (p :: front).count ['.', '.'] := by
      constructor
      · rintro ⟨front, hfront, hlt⟩
        obtain rfl | ⟨front, rfl, hrest⟩ := List.prefix_cons_iff.1 hfront
        · exact absurd hlt (Nat.not_lt_zero _)
        · exact ⟨front, hrest, hlt⟩
      · rintro ⟨front, hfront, hlt⟩
        exact ⟨p :: front, List.cons_prefix_cons.2 ⟨rfl, hfront⟩, hlt⟩
    rw [hfirst]
    by_cases hproper : Proper p
    · -- a step down, that pays for one up
      have hdown : walk above (p :: ps) = walk (p :: above) ps := by
        rw [walk.eq_def]
        simp only [hproper.1, hproper.2.1, hproper.2.2, or_self, if_false]
      have hone : ∀ front : List (List Char),
          (p :: front).countP (Proper ·) = front.countP (Proper ·) + 1 := fun front =>
        List.countP_cons_of_pos (decide_eq_true hproper)
      rw [hdown, ih]
      refine exists_congr fun front => and_congr_right fun _ => ?_
      rw [hone, List.count_cons_of_ne hproper.2.2, List.length_cons]
      omega
    · have hnone : ∀ front : List (List Char),
          (p :: front).countP (Proper ·) = front.countP (Proper ·) := fun front =>
        List.countP_cons_of_neg (decide_eq_false hproper ▸ Bool.false_ne_true)
      simp only [hnone]
      by_cases hdots : p = ['.', '.']
      · subst hdots
        cases above with
        | nil => exact iff_of_true rfl ⟨[], List.nil_prefix, by decide⟩
        | cons a above =>
          have hup : walk (a :: above) (['.', '.'] :: ps) = walk above ps := rfl
          rw [hup, ih]
          refine exists_congr fun front => and_congr_right fun _ => ?_
          rw [List.count_cons_self, List.length_cons]
          omega
      · -- a step that stays where it is
        have hskipped : p = [] ∨ p = ['.'] := by
          by_contra hkept
          exact hproper ⟨fun h => hkept (.inl h), fun h => hkept (.inr h), hdots⟩
        have hstay : walk above (p :: ps) = walk above ps := if_pos hskipped
        simp only [hstay, ih, List.count_cons_of_ne hdots]

/-! ### Normal forms -/

/-- **A path has no normal form exactly if it climbs above its beginning:** some of its first segments
have more pairs of dots among them than names. -/
theorem normalize_eq_none_iff {path : String} :
    normalize path = none ↔ ∃ front, front <+: segments path ∧
      front.countP (Proper ·) < front.count ['.', '.'] := by
  unfold normalize
  dsimp only
  rw [Option.map_eq_none_iff, names?_eq_walk_segments, walk_eq_none_iff]
  simp only [List.length_nil, Nat.zero_add]

/-- Behind the slash at its beginning the normal form of an absolute path is empty, or made of proper
names. -/
theorem exists_proper_of_normalize {path normal : String} (habsolute : isAbsolute path.toList = true)
    (h : normalize path = some normal) :
    ∃ rest, normal.toList = '/' :: rest ∧ (rest = [] ∨ ∀ p ∈ pieces rest, Proper p) := by
  obtain ⟨names, hproper, hslash, rfl⟩ := normalize_names h
  rw [if_pos habsolute, String.toList_ofList]
  refine ⟨unite names, rfl, ?_⟩
  by_cases hne : names = []
  · exact .inl (congrArg unite hne)
  · rw [pieces_unite hne hslash]
    exact .inr hproper

/-- **What is joined to a path depends on its normal form only.** -/
theorem normalize_join {base normal : String} (habsolute : isAbsolute base.toList = true)
    (h : normalize base = some normal) (name : String) :
    normalize (join base name) = normalize (join normal name) := by
  by_cases hname : isAbsolute name.toList = true
  · -- then the base does not matter
    rw [join, if_pos hname, join, if_pos hname]
  · have habsolute' : isAbsolute normal.toList = true := (isAbsolute_normalize h).trans habsolute
    have hnames : ∀ path : String, names? (join path name).toList =
        (names? path.toList).bind fun names => walk names.reverse (pieces name.toList) := by
      intro path
      rw [join, if_neg hname, String.toList_ofList, names?_append_slash, names?_trimSlashes]
    unfold normalize
    dsimp only
    rw [hnames, hnames, names?_normalize h, isAbsolute_join habsolute, isAbsolute_join habsolute']

/-! ### Names with a slash before each of them -/

variable {names front rest : List (List Char)} {n : List Char}

/-- The names, with a slash before each of them: their path, but empty for the root. -/
def trail (names : List (List Char)) : List Char := names.flatMap ('/' :: ·)

theorem trail_append (front rest : List (List Char)) :
    trail (front ++ rest) = trail front ++ trail rest :=
  List.flatMap_append

theorem trail_append_singleton (front : List (List Char)) (n : List Char) :
    trail (front ++ [n]) = trail front ++ '/' :: n := by
  rw [trail_append, trail, trail, List.flatMap_singleton]

theorem slash_unite (hne : names ≠ []) : '/' :: unite names = trail names := by
  induction names with
  | nil => exact absurd rfl hne
  | cons n names ih =>
    by_cases h : names = []
    · subst h
      simp [unite, trail]
    · rw [unite_cons n h, ih h, trail, trail, List.flatMap_cons, List.cons_append]

/-- The path of names that are not none is their trail. -/
theorem toList_absolute_of_ne (hne : names ≠ []) : (absolute names).toList = trail names := by
  rw [toList_absolute, slash_unite hne]

/-- A path of names below a trail. -/
theorem absolute_append_singleton (front : List (List Char)) (n : List Char) :
    (absolute (front ++ [n])).toList = trail front ++ '/' :: n := by
  rw [toList_absolute_of_ne (by simp), trail_append_singleton]

/-- The trail is what is left of a path without the slashes at its end. -/
theorem trimSlashes_absolute (h : ∀ n ∈ names, IsName n) :
    trimSlashes (absolute names).toList = trail names := by
  obtain rfl | ⟨front, n, rfl⟩ := List.eq_nil_or_concat' names
  · decide
  · rw [absolute_append_singleton, trimSlashes_name _ (h n (by simp)), trail_append_singleton]

/-- More slashes at the end make no difference to that. -/
theorem trimSlashes_append_slashes (cs : List Char) (k : Nat) :
    trimSlashes (cs ++ List.replicate k '/') = trimSlashes cs := by
  have hslashes : ∀ c ∈ List.replicate k '/', decide (c = '/') = true := by
    intro c hc
    exact decide_eq_true (List.eq_of_mem_replicate hc)
  rw [trimSlashes, trimSlashes, List.reverse_append, List.reverse_replicate,
    List.dropWhile_append_of_pos hslashes]

/-- The pieces of a trail are the names, behind the nothing before its first slash. -/
theorem pieces_trail (h : ∀ n ∈ names, '/' ∉ n) : pieces (trail names) = [] :: names := by
  induction names using List.reverseRecOn with
  | nil => rfl
  | append_singleton front n ih =>
    have hfront : ∀ m ∈ front, '/' ∉ m := fun m hm => h m (List.mem_append_left _ hm)
    rw [trail_append_singleton, pieces_append_slash, ih hfront, pieces_of_notMem (h n (by simp)),
      List.cons_append]

/-- Putting the pieces of a text together gives the text. -/
theorem unite_pieces (cs : List Char) : unite (pieces cs) = cs := by
  induction cs with
  | nil => rfl
  | cons c cs ih =>
    by_cases hc : c = '/'
    · subst hc
      rw [pieces_slash, unite_cons [] (pieces_ne_nil cs), ih, List.nil_append]
    · obtain ⟨p, ps, hp⟩ := List.exists_cons_of_ne_nil (pieces_ne_nil cs)
      rw [hp] at ih
      rw [pieces_cons hc hp, ← ih]
      by_cases hps : ps = []
      · subst hps
        simp [unite]
      · rw [unite_cons _ hps, unite_cons _ hps, List.cons_append]

theorem segments_absolute (h : ∀ n ∈ names, IsName n) : segments (absolute names) = names := by
  by_cases hne : names = []
  · subst hne
    decide
  · rw [segments, toList_absolute_of_ne hne, pieces_trail fun n hn => (h n hn).2,
      List.filter_cons_of_neg (by simp), List.filter_eq_self]
    intro n hn
    exact decide_eq_true (h n hn).1.1

/-! ### Taking paths apart -/

/-- The name of a path is the last of its names. -/
theorem name_absolute (front : List (List Char)) (hn : IsName n) :
    name (absolute (front ++ [n])) = String.ofList n := by
  rw [name, absolute_append_singleton, trimSlashes_name _ hn, splitLast_slash _ hn.2]

/-- **A normal path is the path above it joined with its name,** except for the root, above which there
is none. -/
theorem join_parent_name {path : String} (h : IsNormalAbsolute path) (hroot : path ≠ "/") :
    ∃ above, parent path = some above ∧ join above (name path) = path := by
  obtain ⟨names, hnames, rfl⟩ := isNormalAbsolute_iff.1 h
  obtain rfl | ⟨front, n, rfl⟩ := List.eq_nil_or_concat' names
  · exact absurd rfl hroot
  · have hn : IsName n := hnames n (by simp)
    refine ⟨absolute front, parent_absolute front hn, ?_⟩
    have hrelative : isAbsolute n = false := by
      obtain ⟨c, cs, rfl⟩ := List.exists_cons_of_ne_nil hn.1.1
      refine beq_eq_false_iff_ne.2 fun hc => hn.2 ?_
      rw [List.head?_cons, Option.some.injEq] at hc
      exact hc ▸ List.mem_cons_self
    calc join (absolute front) (name (absolute (front ++ [n])))
        = join (absolute front) (String.ofList n) := by rw [name_absolute front hn]
      _ = String.ofList (trail front ++ '/' :: n) := by
          rw [join, String.toList_ofList, hrelative, if_neg Bool.false_ne_true,
            trimSlashes_absolute fun m hm => hnames m (List.mem_append_left _ hm)]
      _ = absolute (front ++ [n]) := by
          rw [← absolute_append_singleton, String.ofList_toList]

/-- **One path is seen from another exactly if its names go on from those of the other,** as the names by
which it goes on. Slashes at the end of the other do not count. -/
theorem relativeTo_absolute_eq_some_iff {others : List (List Char)} (h : ∀ n ∈ names, IsName n)
    (h' : ∀ n ∈ others, IsName n) (k : Nat) {relative : String} :
    relativeTo (absolute names) (absolute others ++ String.ofList (List.replicate k '/')) =
        some relative ↔
      ∃ rest, names = others ++ rest ∧ relative = String.ofList (unite rest) := by
  have htop : trimSlashes (absolute others ++ String.ofList (List.replicate k '/')).toList =
      trail others := by
    rw [String.toList_append, String.toList_ofList, trimSlashes_append_slashes,
      trimSlashes_absolute h']
  rw [relativeTo_eq_some_iff, Below, htop]
  constructor
  · rintro (⟨hself, rfl⟩ | hlonger)
    · -- the path itself; it is not the root, whose text is longer than its trail
      have hne : others ≠ [] := by
        rintro rfl
        rw [toList_absolute] at hself
        cases hself
      rw [← toList_absolute_of_ne hne] at hself
      have hsame := (absolute_inj h h').1 (String.toList_injective hself)
      exact ⟨[], by rw [hsame, List.append_nil], rfl⟩
    · have hpieces : pieces (unite names) = others ++ pieces relative.toList := by
        have hboth := congrArg pieces hlonger
        rw [toList_absolute, pieces_slash, pieces_append_slash, pieces_trail fun n hn => (h' n hn).2,
          List.cons_append] at hboth
        exact (List.cons.inj hboth).2
      by_cases hne : names = []
      · -- the root, seen from the root
        subst hne
        obtain ⟨p, ps, hp⟩ := List.exists_cons_of_ne_nil (pieces_ne_nil relative.toList)
        rw [hp] at hpieces
        obtain rfl : others = [] := by
          cases others with
          | nil => rfl
          | cons m others => simp [unite, pieces] at hpieces
        refine ⟨[], rfl, String.toList_injective ?_⟩
        rw [← unite_pieces relative.toList, hp, ← List.nil_append (p :: ps), ← hpieces,
          String.toList_ofList]
        rfl
      · rw [pieces_unite hne fun n hn => (h n hn).2] at hpieces
        exact ⟨pieces relative.toList, hpieces, by rw [unite_pieces, String.ofList_toList]⟩
  · rintro ⟨rest, rfl, rfl⟩
    by_cases hrest : rest = []
    · subst hrest
      rw [List.append_nil]
      by_cases hne : others = []
      · subst hne
        exact .inr rfl
      · exact .inl ⟨toList_absolute_of_ne hne, rfl⟩
    · right
      rw [toList_absolute_of_ne (by simp [hrest]), trail_append, String.toList_ofList,
        slash_unite hrest]

/-! ### The laws -/

/-- **The laws of paths.**

What is joined to an absolute path has a normal form exactly if it has one when it is joined to the
normal form of that path, and then the same. A normal form is its own. That of an absolute path is one
slash with segments behind it, none of them empty or made of one or two dots, or nothing. There is no
normal form exactly if some of the first segments have more pairs of dots among them than names.

A normal absolute path other than the root is the path above it joined with its name. Of two normal
absolute paths, the one is seen from the other, with any slashes at the end of the latter, exactly if its
segments go on from those of the other, and then as the segments by which it goes on. -/
theorem normal_form_laws :
    (∀ base normal name, isAbsolute base.toList = true → normalize base = some normal →
      normalize (join base name) = normalize (join normal name)) ∧
    (∀ path normal, normalize path = some normal → normalize normal = some normal) ∧
    (∀ path normal, isAbsolute path.toList = true → normalize path = some normal →
      ∃ rest, normal.toList = '/' :: rest ∧
        (rest = [] ∨ ∀ p ∈ pieces rest, p ≠ [] ∧ p ≠ ['.'] ∧ p ≠ ['.', '.'])) ∧
    (∀ path, normalize path = none ↔ ∃ front, front <+: segments path ∧
      front.countP (Proper ·) < front.count ['.', '.']) ∧
    (∀ path, IsNormalAbsolute path → path ≠ "/" →
      ∃ above, parent path = some above ∧ join above (name path) = path) ∧
    ∀ path root k, IsNormalAbsolute path → IsNormalAbsolute root →
      ((relativeTo path (root ++ String.ofList (List.replicate k '/'))).isSome ↔
        segments root <+: segments path) ∧
      ∀ rest, segments path = segments root ++ rest →
        relativeTo path (root ++ String.ofList (List.replicate k '/')) =
          some (String.ofList (unite rest)) := by
  refine ⟨fun base normal name habsolute h => normalize_join habsolute h name,
    fun path normal => normalize_normal, fun path normal => exists_proper_of_normalize,
    fun path => normalize_eq_none_iff, fun path => join_parent_name, ?_⟩
  intro path root k hpath hroot
  obtain ⟨names, hnames, rfl⟩ := isNormalAbsolute_iff.1 hpath
  obtain ⟨others, hothers, rfl⟩ := isNormalAbsolute_iff.1 hroot
  rw [segments_absolute hnames, segments_absolute hothers, Option.isSome_iff_exists]
  refine ⟨⟨?_, ?_⟩, ?_⟩
  · rintro ⟨relative, h⟩
    obtain ⟨rest, rfl, -⟩ := (relativeTo_absolute_eq_some_iff hnames hothers k).1 h
    exact List.prefix_append others rest
  · rintro ⟨rest, rfl⟩
    exact ⟨_, (relativeTo_absolute_eq_some_iff hnames hothers k).2 ⟨rest, rfl, rfl⟩⟩
  · intro rest hrest
    exact (relativeTo_absolute_eq_some_iff hnames hothers k).2 ⟨rest, hrest, rfl⟩

/-- The laws at paths with dots, with slashes next to each other, and with a search path that ends in
one. -/
theorem normal_form_laws_below_apps :
    normalize (join "/apps//./my/.." "../libs/a.js") = normalize (join "/apps" "../libs/a.js") ∧
    normalize "/apps/../../x.js" = none ∧
    (∃ above, parent "/apps/my" = some above ∧ join above (name "/apps/my") = "/apps/my") ∧
    relativeTo "/apps/my/comp" "/apps/" = some "my/comp" ∧ relativeTo "/appsx/my" "/apps" = none := by
  obtain ⟨hjoin, -, -, hnone, hparent, hseen⟩ := normal_form_laws
  have hnormal : ∀ path ∈ ["/apps", "/apps/my", "/apps/my/comp", "/appsx/my"],
      IsNormalAbsolute path := by
    simp only [List.forall_mem_cons, IsNormalAbsolute]
    decide
  refine ⟨hjoin _ _ _ (by decide) (by decide), ?_, ?_, ?_, ?_⟩
  · exact (hnone _).2 ⟨[['a', 'p', 'p', 's'], ['.', '.'], ['.', '.']], by decide, by decide⟩
  · exact hparent _ (hnormal _ (by simp)) (by decide)
  · obtain ⟨-, hrest⟩ := hseen "/apps/my/comp" "/apps" 1 (hnormal _ (by simp)) (hnormal _ (by simp))
    exact hrest [['m', 'y'], ['c', 'o', 'm', 'p']] (by decide)
  · obtain ⟨hsome, -⟩ := hseen "/appsx/my" "/apps" 0 (hnormal _ (by simp)) (hnormal _ (by simp))
    refine Option.not_isSome_iff_eq_none.1 fun h => ?_
    exact absurd (hsome.1 h) (by decide)

end ScriptModules.Path
