import ScriptModules.Resource.Directory
import Mathlib.Data.List.Induction

/-!
# Clean paths

A path is clean if nothing in it has to be taken out to follow it: behind at most one slash at its
beginning it is empty, or it is a sequence of names with single slashes between them, and none of
the names is empty or made of one or two dots. A normal form is clean (`normalize_clean`), and so is
the path above a clean one (`parent_clean`). A normal form is its own (`normalize_normal`).

The way that a clean path takes through a directory never leaves it (`Directory.stays_inside`).
-/

namespace ScriptModules

namespace Path

/-! ### Pieces -/

theorem pieces_ne_nil (cs : List Char) : pieces cs ≠ [] := by
  cases cs with
  | nil => exact List.cons_ne_nil _ _
  | cons c rest =>
    unfold pieces
    split
    · exact List.cons_ne_nil _ _
    · split <;> exact List.cons_ne_nil _ _

theorem pieces_slash (cs : List Char) : pieces ('/' :: cs) = [] :: pieces cs := by
  rw [pieces, if_pos rfl]

/-- A character other than a slash goes to the first piece. -/
theorem pieces_cons {c : Char} (hc : c ≠ '/') {cs p : List Char} {ps : List (List Char)}
    (h : pieces cs = p :: ps) : pieces (c :: cs) = (c :: p) :: ps := by
  rw [pieces, if_neg hc, h]

/-- No piece holds a slash. -/
theorem slash_notMem_of_mem_pieces {cs p : List Char} (h : p ∈ pieces cs) : '/' ∉ p := by
  induction cs generalizing p with
  | nil =>
    rw [pieces, List.mem_singleton] at h
    subst h
    exact List.not_mem_nil
  | cons c cs ih =>
    obtain ⟨q, qs, hq⟩ := List.exists_cons_of_ne_nil (pieces_ne_nil cs)
    rw [hq] at ih
    by_cases hc : c = '/'
    · subst hc
      rw [pieces_slash, hq] at h
      rcases List.mem_cons.1 h with rfl | h
      · exact List.not_mem_nil
      · exact ih h
    · rw [pieces_cons hc hq] at h
      rcases List.mem_cons.1 h with rfl | h
      · have hslash : '/' ∉ q := ih List.mem_cons_self
        simpa [Ne.symm hc] using hslash
      · exact ih (List.mem_cons_of_mem _ h)

/-- The pieces on the two sides of a slash. -/
theorem pieces_append_slash (before after : List Char) :
    pieces (before ++ '/' :: after) = pieces before ++ pieces after := by
  induction before with
  | nil => rw [List.nil_append, pieces_slash, pieces, List.singleton_append]
  | cons c before ih =>
    rw [List.cons_append]
    by_cases hc : c = '/'
    · subst hc
      rw [pieces_slash, pieces_slash, ih, List.cons_append]
    · obtain ⟨q, qs, hq⟩ := List.exists_cons_of_ne_nil (pieces_ne_nil before)
      have hboth : pieces (before ++ '/' :: after) = q :: (qs ++ pieces after) := by
        rw [ih, hq, List.cons_append]
      rw [pieces_cons hc hboth, pieces_cons hc hq, List.cons_append]

/-- A text without slashes is one piece. -/
theorem pieces_of_notMem {cs : List Char} (h : '/' ∉ cs) : pieces cs = [cs] := by
  induction cs with
  | nil => rfl
  | cons c cs ih =>
    rw [List.mem_cons, not_or] at h
    exact pieces_cons (Ne.symm h.1) (ih h.2)

theorem unite_cons (n : List Char) {names : List (List Char)} (h : names ≠ []) :
    unite (n :: names) = n ++ '/' :: unite names := by
  obtain ⟨m, rest, rfl⟩ := List.exists_cons_of_ne_nil h
  rfl

/-- Taking names with slashes between them apart again gives the names. -/
theorem pieces_unite {names : List (List Char)} (hne : names ≠ [])
    (hs : ∀ n ∈ names, '/' ∉ n) : pieces (unite names) = names := by
  induction names with
  | nil => exact absurd rfl hne
  | cons n names ih =>
    have hn : '/' ∉ n := hs n List.mem_cons_self
    by_cases h : names = []
    · subst h
      simpa [unite] using pieces_of_notMem hn
    · rw [unite_cons n h, pieces_append_slash, pieces_of_notMem hn,
        ih h fun m hm => hs m (List.mem_cons_of_mem _ hm), List.singleton_append]

/-! ### Clean paths -/

/-- A name that leads to something in a folder: not empty, and not made of one or two dots. -/
def Proper (name : List Char) : Prop := name ≠ [] ∧ name ≠ ['.'] ∧ name ≠ ['.', '.']

instance (name : List Char) : Decidable (Proper name) :=
  inferInstanceAs (Decidable (_ ∧ _ ∧ _))

/-- A path without one slash at its beginning. -/
def belowTop : List Char → List Char
  | [] => []
  | c :: cs => if c = '/' then cs else c :: cs

/-- **A clean path:** behind at most one slash at its beginning it is empty, or the pieces between
its slashes are proper names. -/
def Clean (path : String) : Prop :=
  belowTop path.toList = [] ∨ ∀ p ∈ pieces (belowTop path.toList), Proper p

instance (path : String) : Decidable (Clean path) := inferInstanceAs (Decidable (_ ∨ _))

/-- The walk along pieces keeps proper names only. -/
theorem walk_proper {ps above names : List (List Char)} (h : walk above ps = some names)
    (ha : ∀ n ∈ above, Proper n) : ∀ n ∈ names, Proper n := by
  induction ps generalizing above with
  | nil =>
    rw [walk, Option.some.injEq] at h
    subst h
    intro n hn
    exact ha n (List.mem_reverse.1 hn)
  | cons p ps ih =>
    unfold walk at h
    split at h
    · exact ih h ha
    · rename_i hp
      split at h
      · cases above with
        | nil => cases h
        | cons a above => exact ih h fun n hn => ha n (List.mem_cons_of_mem _ hn)
      · rename_i hdots
        refine ih h fun n hn => ?_
        rcases List.mem_cons.1 hn with rfl | hn
        · exact ⟨fun hnil => hp (.inl hnil), fun hdot => hp (.inr hdot), hdots⟩
        · exact ha n hn

/-- The walk along pieces keeps pieces only. -/
theorem mem_of_walk {ps above names : List (List Char)} (h : walk above ps = some names)
    {n : List Char} (hn : n ∈ names) : n ∈ above ∨ n ∈ ps := by
  induction ps generalizing above with
  | nil =>
    rw [walk, Option.some.injEq] at h
    subst h
    exact .inl (List.mem_reverse.1 hn)
  | cons p ps ih =>
    unfold walk at h
    split at h
    · exact (ih h).imp_right (List.mem_cons_of_mem _)
    · split at h
      · cases above with
        | nil => cases h
        | cons a above => exact (ih h).imp (List.mem_cons_of_mem _) (List.mem_cons_of_mem _)
      · rcases ih h with hn | hn
        · rcases List.mem_cons.1 hn with rfl | hn
          · exact .inr List.mem_cons_self
          · exact .inl hn
        · exact .inr (List.mem_cons_of_mem _ hn)

theorem belowTop_slash (cs : List Char) : belowTop ('/' :: cs) = cs := by
  rw [belowTop, if_pos rfl]

theorem belowTop_of_head {cs : List Char} (h : cs.head? ≠ some '/') : belowTop cs = cs := by
  cases cs with
  | nil => rfl
  | cons c cs =>
    have hc : c ≠ '/' := fun hc => h (by rw [hc, List.head?_cons])
    exact if_neg hc

/-- Proper names without slashes do not begin with one when they are united. -/
theorem head_unite {names : List (List Char)} (hp : ∀ n ∈ names, Proper n)
    (hs : ∀ n ∈ names, '/' ∉ n) : (unite names).head? ≠ some '/' := by
  cases names with
  | nil => nofun
  | cons n rest =>
    obtain ⟨c, cs, rfl⟩ := List.exists_cons_of_ne_nil (hp n List.mem_cons_self).1
    have hc : '/' ≠ c := fun hc => hs (c :: cs) List.mem_cons_self (hc ▸ List.mem_cons_self)
    have hhead : (unite ((c :: cs) :: rest)).head? = some c := by
      by_cases h : rest = []
      · subst h
        simp [unite]
      · rw [unite_cons _ h, List.cons_append, List.head?_cons]
    rw [hhead]
    exact fun h => hc (Option.some.inj h).symm

/-- A normal form is made of proper names, and begins with a slash if the path does. -/
theorem normalize_names {path normal : String} (h : normalize path = some normal) :
    ∃ names : List (List Char), (∀ n ∈ names, Proper n) ∧ (∀ n ∈ names, '/' ∉ n) ∧
      normal =
        String.ofList (if isAbsolute path.toList then '/' :: unite names else unite names) := by
  obtain ⟨names, hnames, rfl⟩ := Option.map_eq_some_iff.1 h
  refine ⟨names, walk_proper hnames fun n hn => absurd hn List.not_mem_nil, ?_, rfl⟩
  exact fun n hn =>
    slash_notMem_of_mem_pieces ((mem_of_walk hnames hn).resolve_left List.not_mem_nil)

/-- What a normal form has behind its slash. -/
theorem belowTop_unite {names : List (List Char)} (hp : ∀ n ∈ names, Proper n)
    (hs : ∀ n ∈ names, '/' ∉ n) (absolute : Bool) :
    belowTop (String.ofList (if absolute then '/' :: unite names else unite names)).toList =
      unite names := by
  rw [String.toList_ofList]
  split
  · exact belowTop_slash _
  · exact belowTop_of_head (head_unite hp hs)

/-- **A normal form is clean.** -/
theorem normalize_clean {path normal : String} (h : normalize path = some normal) :
    Clean normal := by
  obtain ⟨names, hproper, hslash, rfl⟩ := normalize_names h
  rw [Clean, belowTop_unite hproper hslash]
  by_cases hne : names = []
  · subst hne
    exact .inl rfl
  · rw [pieces_unite hne hslash]
    exact .inr hproper

/-! ### The path above -/

/-- Only slashes are cut off. -/
theorem trimSlashes_append (cs : List Char) : ∃ rest, trimSlashes cs ++ rest = cs := by
  refine ⟨(cs.reverse.takeWhile (· = '/')).reverse, ?_⟩
  rw [trimSlashes, ← List.reverse_append, List.takeWhile_append_dropWhile, List.reverse_reverse]

/-- A text is what stands before its last slash, the slash, and what stands behind it. -/
theorem splitLast_append {cs before : List Char} (h : (splitLast cs).1 = some before) :
    ∃ last, cs = before ++ '/' :: last := by
  have hsplit : cs.reverse.takeWhile (· ≠ '/') ++ cs.reverse.dropWhile (· ≠ '/') = cs.reverse :=
    List.takeWhile_append_dropWhile
  have hhead := List.head?_dropWhile_not (fun c : Char => decide (c ≠ '/')) cs.reverse
  unfold splitLast at h
  dsimp only at h
  generalize cs.reverse.takeWhile (· ≠ '/') = last at hsplit h
  cases hd : cs.reverse.dropWhile (· ≠ '/') with
  | nil => rw [hd] at h; cases h
  | cons c rest =>
    rw [hd] at h hsplit hhead
    obtain rfl : rest.reverse = before := Option.some.inj h
    obtain rfl : c = '/' := by simpa using hhead
    refine ⟨last.reverse, ?_⟩
    rw [← List.reverse_reverse cs, ← hsplit, List.reverse_append, List.reverse_cons,
      List.append_assoc, List.singleton_append]

/-- What stands before a slash of a clean path is clean. -/
theorem Clean.before {before after : List Char}
    (h : Clean (String.ofList (before ++ '/' :: after))) : Clean (String.ofList before) := by
  unfold Clean at *
  rw [String.toList_ofList] at *
  cases before with
  | nil => exact .inl rfl
  | cons c before =>
    -- a slash at the beginning is the one that may be dropped
    have key : ∀ b : List Char, (∀ p ∈ pieces (b ++ '/' :: after), Proper p) →
        ∀ p ∈ pieces b, Proper p := by
      intro b hb p hp
      refine hb p ?_
      rw [pieces_append_slash]
      exact List.mem_append_left _ hp
    by_cases hc : c = '/'
    · subst hc
      rw [List.cons_append, belowTop_slash] at h
      rw [belowTop_slash]
      rcases h with h | h
      · simp at h
      · exact .inr (key before h)
    · have hhead : ∀ cs : List Char, belowTop (c :: cs) = c :: cs := fun cs => if_neg hc
      rw [List.cons_append, hhead, ← List.cons_append] at h
      rw [hhead]
      rcases h with h | h
      · simp at h
      · exact .inr (key (c :: before) h)

/-- **The path above a clean one is clean.** -/
theorem parent_clean {path above : String} (hp : Clean path) (h : parent path = some above) :
    Clean above := by
  unfold parent at h
  split at h
  · cases h
  · obtain rfl := Option.some.inj h
    decide
  · rename_i before _ hbefore
    obtain rfl := Option.some.inj h
    obtain ⟨last, hlast⟩ := splitLast_append hbefore
    obtain ⟨rest, hrest⟩ := trimSlashes_append path.toList
    have hwhole : Clean (String.ofList (before ++ '/' :: (last ++ rest))) := by
      rw [← List.cons_append, ← List.append_assoc, ← hlast, hrest, String.ofList_toList]
      exact hp
    exact hwhole.before

/-- The slashes at the beginning of a clean path are at most one. -/
theorem Clean.dropWhile {path : String} (h : Clean path) :
    path.toList.dropWhile (· = '/') = belowTop path.toList := by
  unfold Clean at h
  cases hcs : path.toList with
  | nil => rfl
  | cons c cs =>
    rw [hcs] at h
    by_cases hc : c = '/'
    -- a second slash would stand before an empty piece
    · subst hc
      rw [belowTop_slash] at *
      rw [List.dropWhile_cons_of_pos (by simp)]
      cases cs with
      | nil => rfl
      | cons c cs =>
        have hne : c ≠ '/' := by
          rintro rfl
          rcases h with h | h
          · cases h
          · rw [pieces_slash] at h
            exact (h [] List.mem_cons_self).1 rfl
        exact List.dropWhile_cons_of_neg (by simpa using hne)
    · rw [List.dropWhile_cons_of_neg (by simpa using hc)]
      exact (if_neg hc).symm

/-! ### Normal forms -/

/-- The walk along proper names keeps them all. -/
theorem walk_of_proper {ps : List (List Char)} (h : ∀ p ∈ ps, Proper p) (above : List (List Char)) :
    walk above ps = some (above.reverse ++ ps) := by
  induction ps generalizing above with
  | nil => rw [walk, List.append_nil]
  | cons p ps ih =>
    have hp : Proper p := h p List.mem_cons_self
    unfold walk
    rw [if_neg (not_or.2 ⟨hp.1, hp.2.1⟩), if_neg hp.2.2,
      ih (fun q hq => h q (List.mem_cons_of_mem _ hq)), List.reverse_cons, List.append_assoc,
      List.singleton_append]

theorem names?_unite {names : List (List Char)} (hp : ∀ n ∈ names, Proper n)
    (hs : ∀ n ∈ names, '/' ∉ n) : names? (unite names) = some names := by
  by_cases hne : names = []
  · subst hne
    rfl
  · rw [names?, pieces_unite hne hs, walk_of_proper hp, List.reverse_nil, List.nil_append]

/-- A slash at the beginning is no name. -/
theorem names?_slash (cs : List Char) : names? ('/' :: cs) = names? cs := by
  rw [names?, pieces_slash]
  exact if_pos (.inl rfl)

/-- A normal form begins with a slash exactly if the path does. -/
theorem isAbsolute_normalize {path normal : String} (h : normalize path = some normal) :
    isAbsolute normal.toList = isAbsolute path.toList := by
  obtain ⟨names, hproper, hslash, rfl⟩ := normalize_names h
  rw [String.toList_ofList]
  split
  · rename_i habsolute
    exact habsolute.symm
  · rename_i hrelative
    rw [eq_false_of_ne_true hrelative]
    exact beq_eq_false_iff_ne.2 (head_unite hproper hslash)

/-- A normal form has the names of the path. -/
theorem names?_normalize {path normal : String} (h : normalize path = some normal) :
    names? normal.toList = names? path.toList := by
  obtain ⟨names, hnames, rfl⟩ := Option.map_eq_some_iff.1 h
  have hproper : ∀ n ∈ names, Proper n :=
    walk_proper hnames fun n hn => absurd hn List.not_mem_nil
  have hslash : ∀ n ∈ names, '/' ∉ n := fun n hn =>
    slash_notMem_of_mem_pieces ((mem_of_walk hnames hn).resolve_left List.not_mem_nil)
  rw [String.toList_ofList, hnames]
  split
  · rw [names?_slash, names?_unite hproper hslash]
  · exact names?_unite hproper hslash

/-- **A normal form is its own normal form.** -/
theorem normalize_normal {path normal : String} (h : normalize path = some normal) :
    normalize normal = some normal := by
  unfold normalize at h ⊢
  dsimp only at h ⊢
  rw [names?_normalize h, isAbsolute_normalize h]
  exact h

/-- A name below an absolute path is absolute. -/
theorem isAbsolute_join {base : String} (h : isAbsolute base.toList = true) (name : String) :
    isAbsolute (join base name).toList = true := by
  unfold join
  split
  · assumption
  · rw [String.toList_ofList]
    obtain ⟨rest, hrest⟩ := trimSlashes_append base.toList
    cases htop : trimSlashes base.toList with
    | nil => rfl
    | cons c cs =>
      rw [← hrest, htop] at h
      exact h

/-- The path above an absolute one is absolute. -/
theorem isAbsolute_parent {path above : String} (hp : isAbsolute path.toList = true)
    (h : parent path = some above) : isAbsolute above.toList = true := by
  unfold parent at h
  split at h
  · cases h
  · obtain rfl := Option.some.inj h
    rfl
  · rename_i before hne hbefore
    obtain rfl := Option.some.inj h
    obtain ⟨last, hlast⟩ := splitLast_append hbefore
    obtain ⟨rest, hrest⟩ := trimSlashes_append path.toList
    obtain ⟨c, cs, rfl⟩ := List.exists_cons_of_ne_nil hne
    rw [← hrest, hlast] at hp
    rw [String.toList_ofList]
    exact hp

end Path

/-! ### Ways through a directory -/

namespace Directory

/-- The steps that lead to a path, from the top. -/
def way (path : String) : List String :=
  (Path.pieces (path.toList.dropWhile (· = '/'))).map String.ofList

theorem locate_eq (d : Directory) (path : String) :
    d.locate path = (way path).foldlM d.step (.inside []) := rfl

/-- No step of the way to a clean path is made of dots. -/
theorem way_ne_dots {path : String} (h : Path.Clean path) {s : String} (hs : s ∈ way path) :
    s ≠ "." ∧ s ≠ ".." := by
  obtain ⟨p, hp, rfl⟩ := List.mem_map.1 hs
  rw [h.dropWhile] at hp
  have hdots : p ≠ ['.'] ∧ p ≠ ['.', '.'] := by
    rcases h with h | h
    · rw [h, Path.pieces, List.mem_singleton] at hp
      subst hp
      decide
    · exact (h p hp).2
  constructor
  · intro hp
    exact hdots.1 (String.ofList_injective hp)
  · intro hp
    exact hdots.2 (String.ofList_injective hp)

/-- A step that is not made of dots goes on below the place it leaves from, or stays. -/
theorem step_inside {d : Directory} {names : List String} {s : String} {p : Place}
    (hs : s ≠ "." ∧ s ≠ "..") (h : d.step (.inside names) s = some p) :
    p = .inside (names ++ [s].filter (· ≠ "")) := by
  unfold step at h
  split at h
  · cases h
  · split at h
    · rename_i hempty
      obtain rfl : s = "" := hempty.resolve_right hs.1
      obtain rfl := Option.some.inj h
      simp
    · rename_i hne
      have hempty : s ≠ "" := fun hempty => hne (.inl hempty)
      rw [if_neg hs.2] at h
      unfold enter at h
      dsimp only at h
      split at h
      · obtain rfl := Option.some.inj h
        simp [hempty]
      · cases h

/-- **The way to a clean path stays inside:** each beginning of it leads to the place under its own
names, or nowhere. -/
theorem stays_inside {path : String} (h : Path.Clean path) (d : Directory) {steps : List String}
    (hsteps : steps <+: way path) {p : Place}
    (hp : steps.foldlM d.step (.inside []) = some p) :
    p = .inside (steps.filter (· ≠ "")) := by
  induction steps using List.reverseRecOn generalizing p with
  | nil =>
    obtain rfl := Option.some.inj hp
    rfl
  | append_singleton steps s ih =>
    rw [List.foldlM_append] at hp
    obtain ⟨q, hq, hstep⟩ := Option.bind_eq_some_iff.1 hp
    obtain rfl := ih ((List.prefix_append steps [s]).trans hsteps) hq
    have hs : s ≠ "." ∧ s ≠ ".." := way_ne_dots h (hsteps.subset (by simp))
    have hlast : d.step (.inside (steps.filter (· ≠ ""))) s = some p := by simpa using hstep
    rw [List.filter_append]
    exact step_inside hs hlast

end Directory

end ScriptModules
