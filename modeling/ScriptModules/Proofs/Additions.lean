import Mathlib.Data.List.Basic
import ScriptModules.Proofs.OwnPath

/-!
# Resources in memory and the history of additions

What is kept in memory is told by the additions that were made, in their order, and by nothing else
(`Memory.after_is_history`). Something is kept exactly at the root, at the keys of the additions and
above them; its text is that of the last script added under its path and its supertype that of the
last type, whatever was added in between above it or below it.

`Memory.lookup_add` says of one addition what is there afterwards, for every path, and
`Memory.lookup_after` follows by induction on the history. Of a path only its names matter: the
folders that are made for a key are the paths of the proper beginnings of its names
(`Memory.mem_foldersAbove_iff`).
-/

namespace ScriptModules

namespace Path

/-! ### Absolute normal forms -/

/-- A name that may stand between two slashes of a normal form. -/
def IsName (n : List Char) : Prop := Proper n ∧ '/' ∉ n

/-- The absolute path of the given names. -/
def absolute (names : List (List Char)) : String := String.ofList ('/' :: unite names)

/-- An absolute path that is its own normal form. -/
def IsNormalAbsolute (path : String) : Prop :=
  normalize path = some path ∧ isAbsolute path.toList = true

/-- The first path lies above the second: the names of the second begin with those of the first,
and go on. -/
def IsAbove (above path : String) : Prop :=
  ∃ names rest, rest ≠ [] ∧ names? above.toList = some names ∧
    names? path.toList = some (names ++ rest)

variable {names : List (List Char)}

theorem toList_absolute (names : List (List Char)) :
    (absolute names).toList = '/' :: unite names := String.toList_ofList

theorem names?_absolute (h : ∀ n ∈ names, IsName n) :
    names? (absolute names).toList = some names := by
  rw [toList_absolute, names?_slash, names?_unite (fun n hn => (h n hn).1) fun n hn => (h n hn).2]

theorem isAbsolute_absolute (names : List (List Char)) :
    isAbsolute (absolute names).toList = true := by
  rw [toList_absolute]
  rfl

/-- The absolute normal forms are the paths of names. -/
theorem isNormalAbsolute_iff {path : String} :
    IsNormalAbsolute path ↔ ∃ names, (∀ n ∈ names, IsName n) ∧ path = absolute names := by
  constructor
  · rintro ⟨hnormal, habsolute⟩
    obtain ⟨names, hproper, hslash, heq⟩ := normalize_names hnormal
    rw [if_pos habsolute] at heq
    exact ⟨names, fun n hn => ⟨hproper n hn, hslash n hn⟩, heq⟩
  · rintro ⟨names, hnames, rfl⟩
    refine ⟨?_, isAbsolute_absolute names⟩
    unfold normalize
    dsimp only
    rw [names?_absolute hnames, isAbsolute_absolute]
    rfl

theorem absolute_inj {others : List (List Char)} (h : ∀ n ∈ names, IsName n)
    (h' : ∀ n ∈ others, IsName n) : absolute names = absolute others ↔ names = others := by
  constructor
  · intro heq
    exact Option.some.inj ((names?_absolute h).symm.trans (heq ▸ names?_absolute h'))
  · exact congrArg absolute

/-- Above a path of names are the paths of their proper beginnings. -/
theorem isAbove_absolute {above : List (List Char)} (ha : ∀ n ∈ above, IsName n)
    (h : ∀ n ∈ names, IsName n) :
    IsAbove (absolute above) (absolute names) ↔ above <+: names ∧ above ≠ names := by
  unfold IsAbove
  rw [names?_absolute ha, names?_absolute h]
  constructor
  · rintro ⟨_, rest, hrest, heq, hnames⟩
    obtain rfl := Option.some.inj heq
    obtain rfl := Option.some.inj hnames
    refine ⟨List.prefix_append above rest, fun hsame => hrest ?_⟩
    exact List.append_right_eq_self.1 hsame.symm
  · rintro ⟨⟨rest, rfl⟩, hne⟩
    refine ⟨above, rest, fun hrest => hne ?_, rfl, rfl⟩
    rw [hrest, List.append_nil]

/-! ### The path above -/

theorem trimSlashes_of_getLast {cs : List Char} (h : cs.getLast? ≠ some '/') :
    trimSlashes cs = cs := by
  rw [List.getLast?_eq_head?_reverse] at h
  have hkept : cs.reverse.dropWhile (· = '/') = cs.reverse := by
    cases hrev : cs.reverse with
    | nil => rfl
    | cons c rest =>
      rw [hrev] at h
      exact List.dropWhile_cons_of_neg (by simpa using h)
  rw [trimSlashes, hkept, List.reverse_reverse]

theorem splitLast_slash (before : List Char) {n : List Char} (h : '/' ∉ n) :
    splitLast (before ++ '/' :: n) = (some before, n) := by
  have hn : ∀ c ∈ n.reverse, decide (c ≠ '/') = true := by
    intro c hc
    rw [decide_eq_true_iff]
    rintro rfl
    exact h (List.mem_reverse.1 hc)
  have hrev : (before ++ '/' :: n).reverse = n.reverse ++ '/' :: before.reverse := by simp
  unfold splitLast
  dsimp only
  rw [hrev, List.dropWhile_append_of_pos hn, List.takeWhile_append_of_pos hn]
  simp

theorem unite_append_singleton {names : List (List Char)} (hne : names ≠ []) (n : List Char) :
    unite (names ++ [n]) = unite names ++ '/' :: n := by
  induction names with
  | nil => exact absurd rfl hne
  | cons m rest ih =>
    by_cases hrest : rest = []
    · subst hrest
      simp [unite]
    · rw [List.cons_append, unite_cons m (by simp), ih hrest, unite_cons m hrest,
        List.append_assoc, List.cons_append]

/-- A text that ends in a name has no slashes at its end. -/
theorem trimSlashes_name (before : List Char) {n : List Char} (hn : IsName n) :
    trimSlashes (before ++ '/' :: n) = before ++ '/' :: n := by
  refine trimSlashes_of_getLast fun h => hn.2 (List.mem_of_getLast? (l := n) ?_)
  obtain ⟨c, cs, hcs⟩ := List.exists_cons_of_ne_nil hn.1.1
  rw [hcs] at h ⊢
  simpa using h

/-- The path above that of some names is that of all of them but the last. -/
theorem parent_absolute (names : List (List Char)) {n : List Char} (hn : IsName n) :
    parent (absolute (names ++ [n])) = some (absolute names) := by
  unfold parent
  rw [toList_absolute]
  by_cases hne : names = []
  · subst hne
    have htop : '/' :: unite ([] ++ [n]) = [] ++ '/' :: n := by simp [unite]
    rw [htop, trimSlashes_name _ hn, splitLast_slash _ hn.2]
    rfl
  · have hbelow : '/' :: unite (names ++ [n]) = ('/' :: unite names) ++ '/' :: n := by
      rw [unite_append_singleton hne, List.cons_append]
    rw [hbelow, trimSlashes_name _ hn, splitLast_slash _ hn.2]
    rfl

theorem parent_absolute_nil : parent (absolute []) = none := by decide

end Path

namespace Memory

open ScriptModules.Path

/-! ### The folders above a path -/

/-- The folders above a path of names are the paths of their proper beginnings. -/
theorem mem_foldersAbove_iff {names : List (List Char)} (h : ∀ n ∈ names, IsName n) {fuel : Nat}
    (hfuel : names.length ≤ fuel) {q : String} :
    q ∈ foldersAbove fuel (absolute names) ↔
      ∃ above, above <+: names ∧ above ≠ names ∧ q = absolute above := by
  -- from the end, as a folder is what is left when the last name is taken away
  induction names using List.reverseRecOn generalizing fuel with
  | nil =>
    have hnone : foldersAbove fuel (absolute []) = [] := by
      cases fuel with
      | zero => rfl
      | succ fuel => rw [foldersAbove, parent_absolute_nil]
    rw [hnone]
    constructor
    · nofun
    · rintro ⟨above, hbefore, hne, -⟩
      exact absurd (List.prefix_nil.1 hbefore) hne
  | append_singleton names n ih =>
    rw [List.length_append, List.length_singleton] at hfuel
    obtain ⟨fuel, rfl⟩ : ∃ m, fuel = m + 1 := ⟨fuel - 1, by omega⟩
    have hfolder := parent_absolute names (h n (by simp))
    rw [foldersAbove, hfolder, List.mem_cons,
      ih (fun m hm => h m (List.mem_append_left _ hm)) (by omega)]
    constructor
    · rintro (rfl | ⟨above, hbefore, -, rfl⟩)
      · exact ⟨names, List.prefix_append _ _, by simp, rfl⟩
      · refine ⟨above, hbefore.trans (List.prefix_append _ _), ?_, rfl⟩
        rintro rfl
        exact absurd hbefore.length_le (by simp)
    · rintro ⟨above, hbefore, hne, rfl⟩
      rcases List.prefix_concat_iff.1 hbefore with heq | hbefore
      · exact absurd heq hne
      · by_cases hall : above = names
        · exact .inl (congrArg absolute hall)
        · exact .inr ⟨above, hbefore, hall, rfl⟩

/-- A path has at least as many characters as names. -/
theorem length_names_le {names : List (List Char)} (h : ∀ n ∈ names, IsName n) :
    names.length ≤ (absolute names).length := by
  have hunite : names.length ≤ (unite names).length := by
    induction names with
    | nil => exact Nat.zero_le _
    | cons n rest ih =>
      have hn : 0 < n.length := List.length_pos_iff.2 (h n List.mem_cons_self).1.1
      have hrest := ih fun m hm => h m (List.mem_cons_of_mem _ hm)
      by_cases hne : rest = []
      · subst hne
        simpa [unite, Nat.succ_le_iff] using hn
      · rw [unite_cons n hne, List.length_append, List.length_cons, List.length_cons]
        omega
  rw [← String.length_toList, toList_absolute, List.length_cons]
  omega

/-! ### One addition -/

variable (m : Memory) (q : String)

theorem lookup_put (x : Resource) :
    (m.put x).lookup q = if q = x.path then some x else m.lookup q := by
  obtain ⟨resources⟩ := m
  unfold put lookup
  dsimp only
  induction resources with
  | nil =>
    by_cases hq : q = x.path
    · simp [place, hq]
    · simp [place, hq, Ne.symm hq]
  | cons y rest ih =>
    unfold place
    by_cases hy : y.path = x.path
    · rw [if_pos hy, List.find?_cons, List.find?_cons, hy]
      by_cases hq : q = x.path
      · simp [hq]
      · simp [hq, Ne.symm hq]
    · rw [if_neg hy, List.find?_cons, List.find?_cons, ih]
      by_cases hyq : y.path = q
      · subst hyq
        simp [hy]
      · simp [hyq]

theorem lookup_ensureFolder (folder : String) :
    (m.ensureFolder folder).lookup q =
      (m.lookup q).or (if q = folder then some ⟨folder, none, none⟩ else none) := by
  unfold ensureFolder
  cases hfolder : m.lookup folder with
  | some x =>
    by_cases hq : q = folder
    · simp [hq, hfolder]
    · simp [hq]
  | none =>
    unfold lookup
    rw [List.find?_append, List.find?_singleton]
    by_cases hq : q = folder
    · simp [hq]
    · simp [hq, Ne.symm hq]

theorem lookup_ensureFolders (folders : List String) :
    (folders.foldl ensureFolder m).lookup q =
      (m.lookup q).or (if q ∈ folders then some ⟨q, none, none⟩ else none) := by
  induction folders generalizing m with
  | nil => simp
  | cons folder rest ih =>
    rw [List.foldl_cons, ih, lookup_ensureFolder, Option.or_assoc]
    by_cases hq : q = folder
    · simp [hq]
    · simp [hq]

theorem lookup_ensureAbove (path : String) :
    (m.ensureAbove path).lookup q = (m.lookup q).or
      (if q ∈ foldersAbove (path.length + 1) path then some ⟨q, none, none⟩ else none) :=
  m.lookup_ensureFolders q _

theorem keyPath_isNormalAbsolute (path : String) : IsNormalAbsolute (keyPath path) := by
  unfold keyPath
  cases h : normalize (join "/" path) with
  | none => exact ⟨by decide, by decide⟩
  | some key =>
    refine ⟨normalize_normal h, ?_⟩
    rw [Option.getD_some, isAbsolute_normalize h]
    exact isAbsolute_join (by decide) path

/-- The folders that are made for a key are the absolute normal forms above it. -/
theorem mem_foldersAbove_key_iff {key : String} (hkey : IsNormalAbsolute key) :
    q ∈ foldersAbove (key.length + 1) key ↔ IsNormalAbsolute q ∧ IsAbove q key := by
  obtain ⟨names, hnames, rfl⟩ := isNormalAbsolute_iff.1 hkey
  rw [mem_foldersAbove_iff hnames (Nat.le_succ_of_le (length_names_le hnames))]
  constructor
  · rintro ⟨above, hbefore, hne, rfl⟩
    have habove : ∀ n ∈ above, IsName n := fun n hn => hnames n (hbefore.subset hn)
    exact ⟨isNormalAbsolute_iff.2 ⟨above, habove, rfl⟩,
      (isAbove_absolute habove hnames).2 ⟨hbefore, hne⟩⟩
  · rintro ⟨hq, habove⟩
    obtain ⟨above, habove', rfl⟩ := isNormalAbsolute_iff.1 hq
    obtain ⟨hbefore, hne⟩ := (isAbove_absolute habove' hnames).1 habove
    exact ⟨above, hbefore, hne, rfl⟩

theorem not_isAbove_self (path : String) : ¬ IsAbove path path := by
  rintro ⟨names, rest, hrest, hnames, hmore⟩
  have heq : names = names ++ rest := Option.some.inj (hnames.symm.trans hmore)
  exact hrest (List.append_right_eq_self.1 heq.symm)

/-- The folders above a key leave what is at the key as it was. -/
theorem lookup_ensureAbove_key {key : String} (hkey : IsNormalAbsolute key) :
    (m.ensureAbove key).lookup key = m.lookup key := by
  have hself : key ∉ foldersAbove (key.length + 1) key := fun h =>
    not_isAbove_self key ((mem_foldersAbove_key_iff key hkey).1 h).2
  rw [lookup_ensureAbove, if_neg hself, Option.or_none]

end Memory

/-- An addition to the resources in memory. -/
inductive Addition where
  | script (path content : String)
  | type (path : String) (superType : Option String)

namespace Addition

/-- The path under which something is added. -/
def key : Addition → String
  | script path _ => Memory.keyPath path
  | type path _ => Memory.keyPath path

/-- The text that is put at a path, if it is the key of a script. -/
def textAt? (q : String) : Addition → Option String
  | script path content => if q = Memory.keyPath path then some content else none
  | type _ _ => none

/-- The supertype, or none, that is put at a path, if it is the key of a type. -/
def superTypeAt? (q : String) : Addition → Option (Option String)
  | script _ _ => none
  | type path superType => if q = Memory.keyPath path then some superType else none

theorem key_isNormalAbsolute (a : Addition) : Path.IsNormalAbsolute a.key := by
  cases a <;> exact Memory.keyPath_isNormalAbsolute _

theorem textAt?_of_ne {q : String} {a : Addition} (h : q ≠ a.key) : a.textAt? q = none := by
  cases a with
  | script path content => exact if_neg h
  | type path superType => rfl

theorem superTypeAt?_of_ne {q : String} {a : Addition} (h : q ≠ a.key) :
    a.superTypeAt? q = none := by
  cases a with
  | script path content => rfl
  | type path superType => exact if_neg h

end Addition

namespace Memory

open ScriptModules.Path

/-- The resources with one more addition. -/
def add (m : Memory) : Addition → Memory
  | .script path content => m.addScript path content
  | .type path superType => m.addType path superType

/-- **What an addition does to every path.** At its key it puts its own and keeps the rest of what
was there; above its key it makes folders where nothing was; everything else stays as it was. -/
theorem lookup_add (m : Memory) (a : Addition) (q : String) :
    (q = a.key ∧ (m.add a).lookup q = some ⟨q,
      (a.superTypeAt? q).getD ((m.lookup q).bind (·.superType)),
      (a.textAt? q).or ((m.lookup q).bind (·.content))⟩) ∨
    (q ≠ a.key ∧ (IsNormalAbsolute q ∧ IsAbove q a.key) ∧
      (m.add a).lookup q = (m.lookup q).or (some ⟨q, none, none⟩)) ∨
    (q ≠ a.key ∧ ¬ (IsNormalAbsolute q ∧ IsAbove q a.key) ∧
      (m.add a).lookup q = m.lookup q) := by
  have hkey := a.key_isNormalAbsolute
  have hadd : ∃ superType content, m.add a = (m.ensureAbove a.key).put ⟨a.key, superType, content⟩ ∧
      superType = (a.superTypeAt? a.key).getD ((m.lookup a.key).bind (·.superType)) ∧
      content = (a.textAt? a.key).or ((m.lookup a.key).bind (·.content)) := by
    refine ⟨_, _, ?_, rfl, rfl⟩
    cases a with
    | script path content =>
      have hkept := m.lookup_ensureAbove_key (keyPath_isNormalAbsolute path)
      simp [add, addScript, hkept, Addition.key, Addition.textAt?, Addition.superTypeAt?]
    | type path superType =>
      have hkept := m.lookup_ensureAbove_key (keyPath_isNormalAbsolute path)
      simp [add, addType, hkept, Addition.key, Addition.textAt?, Addition.superTypeAt?]
  -- either addition makes the folders above its key first, and then puts the resource there
  obtain ⟨superType, content, heq, rfl, rfl⟩ := hadd
  rw [heq, lookup_put]
  by_cases hq : q = a.key
  · subst hq
    exact .inl ⟨rfl, if_pos rfl⟩
  · rw [if_neg hq, lookup_ensureAbove]
    by_cases habove : IsNormalAbsolute q ∧ IsAbove q a.key
    · rw [if_pos ((mem_foldersAbove_key_iff q hkey).2 habove)]
      exact .inr (.inl ⟨hq, habove, rfl⟩)
    · rw [if_neg fun h => habove ((mem_foldersAbove_key_iff q hkey).1 h), Option.or_none]
      exact .inr (.inr ⟨hq, habove, rfl⟩)

/-! ### Histories -/

/-- The resources after some additions to the root folder alone. -/
def after (history : List Addition) : Memory := history.foldl add empty

/-- The text that was last put at a path. -/
def lastText (history : List Addition) (q : String) : Option String :=
  history.reverse.findSome? (Addition.textAt? q)

/-- The supertype that the path was last given, if it was given one. -/
def lastSuperType (history : List Addition) (q : String) : Option String :=
  (history.reverse.findSome? (Addition.superTypeAt? q)).join

/-- A path under which something is kept after some additions: the root, the key of one of them, or
an absolute normal form above a key. -/
def Keeps (history : List Addition) (q : String) : Prop :=
  IsNormalAbsolute q ∧ (q = "/" ∨ ∃ a ∈ history, q = a.key ∨ IsAbove q a.key)

variable (history : List Addition) (a : Addition) (q : String)

theorem after_append (later : List Addition) :
    after (history ++ later) = later.foldl add (after history) := List.foldl_append

theorem lastText_append_singleton :
    lastText (history ++ [a]) q = (a.textAt? q).or (lastText history q) := by
  unfold lastText
  rw [List.reverse_append, List.reverse_singleton, List.singleton_append, List.findSome?_cons]
  cases a.textAt? q <;> rfl

theorem lastSuperType_append_singleton :
    lastSuperType (history ++ [a]) q = (a.superTypeAt? q).getD (lastSuperType history q) := by
  unfold lastSuperType
  rw [List.reverse_append, List.reverse_singleton, List.singleton_append, List.findSome?_cons]
  cases a.superTypeAt? q <;> rfl

theorem keeps_append_singleton_iff : Keeps (history ++ [a]) q ↔
    Keeps history q ∨ q = a.key ∨ (IsNormalAbsolute q ∧ IsAbove q a.key) := by
  have hkey := a.key_isNormalAbsolute
  unfold Keeps
  simp only [List.mem_append, List.mem_singleton, or_and_right, exists_or, exists_eq_left]
  constructor
  · rintro ⟨hq, h | h | h | h⟩
    · exact .inl ⟨hq, .inl h⟩
    · exact .inl ⟨hq, .inr h⟩
    · exact .inr (.inl h)
    · exact .inr (.inr ⟨hq, h⟩)
  · rintro (⟨hq, h | h⟩ | rfl | ⟨hq, h⟩)
    · exact ⟨hq, .inl h⟩
    · exact ⟨hq, .inr (.inl h)⟩
    · exact ⟨hkey, .inr (.inr (.inl rfl))⟩
    · exact ⟨hq, .inr (.inr (.inr h))⟩

variable {history q}

/-- Nothing is put at a path that nothing is kept under. -/
theorem last_of_not_keeps (h : ¬ Keeps history q) :
    lastText history q = none ∧ lastSuperType history q = none := by
  have hne : ∀ a ∈ history, q ≠ a.key := by
    rintro a ha rfl
    exact h ⟨a.key_isNormalAbsolute, .inr ⟨a, ha, .inl rfl⟩⟩
  have htext : lastText history q = none :=
    List.findSome?_eq_none_iff.2 fun a ha =>
      Addition.textAt?_of_ne (hne a (List.mem_reverse.1 ha))
  have htype : history.reverse.findSome? (Addition.superTypeAt? q) = none :=
    List.findSome?_eq_none_iff.2 fun a ha =>
      Addition.superTypeAt?_of_ne (hne a (List.mem_reverse.1 ha))
  exact ⟨htext, by rw [lastSuperType, htype]; rfl⟩

variable (history q)

/-- **What is kept at a path is told by the history,** one addition after the other. -/
theorem lookup_after :
    (Keeps history q ∧ (after history).lookup q =
      some ⟨q, lastSuperType history q, lastText history q⟩) ∨
    (¬ Keeps history q ∧ (after history).lookup q = none) := by
  induction history using List.reverseRecOn with
  | nil =>
    by_cases hq : q = "/"
    · subst hq
      exact .inl ⟨⟨⟨by decide, by decide⟩, .inl rfl⟩, rfl⟩
    · refine .inr ⟨?_, ?_⟩
      · rintro ⟨-, h | ⟨a, ha, -⟩⟩
        · exact hq h
        · cases ha
      · simp [after, empty, lookup, Ne.symm hq]
  | append_singleton history a ih =>
    rw [lastText_append_singleton, lastSuperType_append_singleton, keeps_append_singleton_iff,
      after_append, List.foldl_cons, List.foldl_nil]
    -- what an addition keeps of the resource at its key
    have hbefore : ((after history).lookup q).bind (·.superType) = lastSuperType history q ∧
        ((after history).lookup q).bind (·.content) = lastText history q := by
      rcases ih with ⟨-, h⟩ | ⟨hno, h⟩
      · rw [h]
        exact ⟨rfl, rfl⟩
      · rw [h, (last_of_not_keeps hno).1, (last_of_not_keeps hno).2]
        exact ⟨rfl, rfl⟩
    rcases (after history).lookup_add a q with ⟨hq, h⟩ | ⟨hq, habove, h⟩ | ⟨hq, habove, h⟩
    · rw [h, hbefore.1, hbefore.2]
      exact .inl ⟨.inr (.inl hq), rfl⟩
    · rw [h, Addition.textAt?_of_ne hq, Addition.superTypeAt?_of_ne hq]
      refine .inl ⟨.inr (.inr habove), ?_⟩
      rcases ih with ⟨-, h⟩ | ⟨hno, h⟩
      · rw [h]
        rfl
      · rw [h, (last_of_not_keeps hno).1, (last_of_not_keeps hno).2]
        rfl
    · rw [h, Addition.textAt?_of_ne hq, Addition.superTypeAt?_of_ne hq]
      rcases ih with ⟨hkeeps, h⟩ | ⟨hno, h⟩
      · exact .inl ⟨.inl hkeeps, h⟩
      · refine .inr ⟨?_, h⟩
        rintro (hkeeps | heq | habove')
        · exact hno hkeeps
        · exact hq heq
        · exact habove habove'

theorem isSome_lookup_after_iff : ((after history).lookup q).isSome ↔ Keeps history q := by
  rcases lookup_after history q with ⟨hkeeps, h⟩ | ⟨hno, h⟩
  · rw [h]
    exact iff_of_true rfl hkeeps
  · rw [h]
    exact iff_of_false Bool.false_ne_true hno

variable {history q}

/-- Above a path that something is kept under, there is a path that something is kept under. -/
theorem Keeps.exists_parent (h : Keeps history q) (hq : q ≠ "/") :
    ∃ above, parent q = some above ∧ Keeps history above := by
  obtain ⟨hnormal, hkeeps⟩ := h
  obtain ⟨names, hnames, rfl⟩ := isNormalAbsolute_iff.1 hnormal
  obtain rfl | ⟨above, n, rfl⟩ := List.eq_nil_or_concat' names
  · exact absurd rfl hq
  have habove : ∀ m ∈ above, IsName m := fun m hm => hnames m (List.mem_append_left _ hm)
  refine ⟨absolute above, parent_absolute above (hnames n (by simp)),
    isNormalAbsolute_iff.2 ⟨above, habove, rfl⟩, .inr ?_⟩
  obtain ⟨a, ha, hkey⟩ := hkeeps.resolve_left hq
  obtain ⟨key, hkeyNames, heq⟩ := isNormalAbsolute_iff.1 a.key_isNormalAbsolute
  rw [heq, absolute_inj hnames hkeyNames, isAbove_absolute hnames hkeyNames] at hkey
  have hbefore : above ++ [n] <+: key := by
    rcases hkey with rfl | ⟨hbefore, -⟩
    · exact List.prefix_rfl
    · exact hbefore
  refine ⟨a, ha, .inr ?_⟩
  rw [heq, isAbove_absolute habove hkeyNames]
  refine ⟨(List.prefix_append _ _).trans hbefore, ?_⟩
  rintro rfl
  exact absurd hbefore.length_le (by simp)

/-- Additions under other keys leave what is kept at a path as it was. -/
theorem lookup_after_append {later : List Addition} (hlater : ∀ a ∈ later, a.key ≠ q)
    {x : Resource} (h : (after history).lookup q = some x) :
    (after (history ++ later)).lookup q = some x := by
  rw [after_append]
  generalize after history = m at h
  induction later generalizing m with
  | nil => exact h
  | cons a later ih =>
    refine ih (fun b hb => hlater b (List.mem_cons_of_mem _ hb)) (m.add a) ?_
    have hne : q ≠ a.key := (hlater a List.mem_cons_self).symm
    rcases m.lookup_add a q with ⟨heq, -⟩ | ⟨-, -, hadd⟩ | ⟨-, -, hadd⟩
    · exact absurd heq hne
    · rw [hadd, h, Option.some_or]
    · exact hadd.trans h

variable (history q)

/-- **The resources in memory are their history.** Something is kept exactly at the root, at the
keys of the additions and above them. It bears its path, the text of the last script under that key
and the supertype of the last type under it; additions under other keys, above it or below it,
change none of this; and unless it is the root, something is kept at the path above it. -/
theorem after_is_history :
    (((after history).lookup q).isSome ↔ Keeps history q) ∧
    ∀ x, (after history).lookup q = some x →
      x.path = q ∧ x.content = lastText history q ∧ x.superType = lastSuperType history q ∧
      (∀ later : List Addition, (∀ a ∈ later, a.key ≠ q) →
        (after (history ++ later)).lookup q = some x) ∧
      (q ≠ "/" → ∃ above, parent q = some above ∧ ((after history).lookup above).isSome) := by
  refine ⟨isSome_lookup_after_iff history q, fun x hx => ?_⟩
  rcases lookup_after history q with ⟨hkeeps, h⟩ | ⟨-, h⟩
  · obtain rfl := Option.some.inj (h.symm.trans hx)
    refine ⟨rfl, rfl, rfl, fun later hlater => lookup_after_append hlater h, fun hq => ?_⟩
    obtain ⟨above, hparent, habove⟩ := hkeeps.exists_parent hq
    exact ⟨above, hparent, (isSome_lookup_after_iff history above).2 habove⟩
  · rw [h] at hx
    cases hx

/-- A page that is given a type, a script, then a text of its own, and a text for the root by a path
that climbs too far. -/
def pageHistory : List Addition :=
  [.type "apps/page" (some "/libs/base"), .script "/apps/./page/main.js" "main",
    .script "/apps/page/" "index", .script "../page" "top"]

/-- The page keeps the type it was given first and the text it was given last, also when more is
added above it and below it. -/
theorem pageHistory_kept :
    (after pageHistory).lookup "/apps/page" =
      some ⟨"/apps/page", some "/libs/base", some "index"⟩ ∧
    (after (pageHistory ++ [.type "/apps" none, .script "/apps/page/other.js" "other"])).lookup
      "/apps/page" = some ⟨"/apps/page", some "/libs/base", some "index"⟩ ∧
    ∃ above, parent "/apps/page" = some above ∧ ((after pageHistory).lookup above).isSome := by
  have hpage : (after pageHistory).lookup "/apps/page" =
      some ⟨"/apps/page", some "/libs/base", some "index"⟩ := by decide +kernel
  obtain ⟨-, -, -, hlater, habove⟩ := (after_is_history pageHistory "/apps/page").2 _ hpage
  exact ⟨hpage, hlater _ (by decide), habove (by decide)⟩

/-- **What is in memory is found again under its own path,** whatever the search paths are. -/
theorem found_again (searchPaths : List String) {p : String} {x : Resource}
    (h : (Repository.mk (.memory (after history)) searchPaths).get p = some x) :
    (Repository.mk (.memory (after history)) searchPaths).get x.path = some x := by
  have hcandidate := List.exists_of_findSome?_eq_some h
  obtain ⟨path, -, hpath⟩ := hcandidate
  obtain rfl := Repository.path_of_lookup hpath
  have hkept : (after history).lookup x.path = some x := hpath
  have hkeeps : Keeps history x.path :=
    (isSome_lookup_after_iff history x.path).1 (Option.isSome_of_eq_some hkept)
  unfold Repository.get Repository.candidates
  rw [if_pos hkeeps.1.2, hkeeps.1.1]
  exact (List.findSome?_singleton ..).trans hpath

end Memory

end ScriptModules
