import ScriptModules.Proofs.Resolution

/-!
# Walks along supertypes

A resolver walks along supertypes in two loops: to find a dependency next to one of the nodes, and to
tell whether a resource has another among its supertypes. Neither loop is given a bound. Each goes on
from a node to its supertype until it has a hit, there is no supertype, or a path comes back, however
the supertypes are spelled. `Resolver.Walk` and `Resolver.Test` are these loops step by step, with the
nodes that they consult.

The main statement, `Resolver.supertype_walks_end`, is that each loop comes to an end from every
resource, in one way only, and without consulting a node twice; and that it misses nothing on the
lineage. What makes both end is that the lineage is finite: from the chain that a resolver follows,
which stops before its fuel does, one reads off what a loop does (`Resolver.walk_of_chain`,
`Resolver.test_of_chain`).
-/

namespace ScriptModules

/-- How a walk along supertypes ends. -/
inductive WalkEnd (α : Type) where
  /-- With what was sought. -/
  | hit (a : α)
  /-- At a node without a supertype. -/
  | atEnd
  /-- At a resource whose path was met. -/
  | back (x : Resource)

namespace WalkEnd

variable {α : Type}

/-- What was found. -/
def found : WalkEnd α → Option α
  | hit a => some a
  | atEnd => none
  | back _ => none

/-- The notes that are written at the end: a path that comes back is warned of. -/
def notes : WalkEnd α → List Note
  | hit _ => []
  | atEnd => []
  | back x => [⟨.warn, "Resource supertype cycle at " ++ x.path⟩]

end WalkEnd

namespace Resolver

variable {r : Resolver}

/-- The note that is written before a name is looked up next to a node. -/
def lookingUp (dependency : String) (node : Resource) : Note :=
  ⟨.trace, "Looking up " ++ dependency ++ " under " ++ node.path⟩

/-- **The loop that looks for a dependency,** from a resource on, when some paths have been met. It
consults the nodes of a trail: each is asked for the dependency, and if it has none for its supertype. -/
inductive Walk (r : Resolver) (dependency : String) :
    List String → Resource → List Resource → WalkEnd Resource → Prop
  | back {met : List String} {x : Resource} : x.path ∈ met → Walk r dependency met x [] (.back x)
  | hit {met : List String} {x y : Resource} : x.path ∉ met →
      r.lookupFrom x dependency = some y → Walk r dependency met x [x] (.hit y)
  | atEnd {met : List String} {x : Resource} : x.path ∉ met → r.lookupFrom x dependency = none →
      r.repository.superTypeOf x = none → Walk r dependency met x [x] .atEnd
  | on {met : List String} {x y : Resource} {trail : List Resource} {e : WalkEnd Resource} :
      x.path ∉ met → r.lookupFrom x dependency = none → r.repository.superTypeOf x = some y →
      Walk r dependency (x.path :: met) y trail e → Walk r dependency met x (x :: trail) e

/-- **The loop that looks for an ancestor,** which compares the path of a resource with that of the
ancestor before it compares it with those that have been met. -/
inductive Test (r : Resolver) (ancestor : Resource) :
    List String → Resource → List Resource → WalkEnd Unit → Prop
  | hit {met : List String} {x : Resource} : x.path = ancestor.path →
      Test r ancestor met x [x] (.hit ())
  | back {met : List String} {x : Resource} : x.path ≠ ancestor.path → x.path ∈ met →
      Test r ancestor met x [] (.back x)
  | atEnd {met : List String} {x : Resource} : x.path ≠ ancestor.path → x.path ∉ met →
      r.repository.superTypeOf x = none → Test r ancestor met x [x] .atEnd
  | on {met : List String} {x y : Resource} {trail : List Resource} {e : WalkEnd Unit} :
      x.path ≠ ancestor.path → x.path ∉ met → r.repository.superTypeOf x = some y →
      Test r ancestor (x.path :: met) y trail e → Test r ancestor met x (x :: trail) e

/-! ### One way to go -/

/-- The loop for a dependency has one way to go. -/
theorem Walk.unique {dependency : String} {met : List String} {x : Resource}
    {trail others : List Resource} {e e' : WalkEnd Resource} (h : r.Walk dependency met x trail e)
    (h' : r.Walk dependency met x others e') : others = trail ∧ e' = e := by
  -- the steps exclude each other: by what has been met, by the hit, and by the supertype
  induction h generalizing others e' with
  | back hmet =>
    cases h' with
    | back => exact ⟨rfl, rfl⟩
    | hit hnew => exact absurd hmet hnew
    | atEnd hnew => exact absurd hmet hnew
    | on hnew => exact absurd hmet hnew
  | hit hnew hfound =>
    cases h' with
    | back hmet => exact absurd hmet hnew
    | hit _ hfound' =>
      obtain rfl := Option.some.inj (hfound.symm.trans hfound')
      exact ⟨rfl, rfl⟩
    | atEnd _ hnone => cases hfound.symm.trans hnone
    | on _ hnone => cases hfound.symm.trans hnone
  | atEnd hnew hnone hlast =>
    cases h' with
    | back hmet => exact absurd hmet hnew
    | hit _ hfound => cases hnone.symm.trans hfound
    | atEnd => exact ⟨rfl, rfl⟩
    | on _ _ hnext => cases hlast.symm.trans hnext
  | on hnew hnone hnext _ ih =>
    cases h' with
    | back hmet => exact absurd hmet hnew
    | hit _ hfound => cases hnone.symm.trans hfound
    | atEnd _ _ hlast => cases hlast.symm.trans hnext
    | on _ _ hnext' hrest =>
      obtain rfl := Option.some.inj (hnext.symm.trans hnext')
      obtain ⟨rfl, rfl⟩ := ih hrest
      exact ⟨rfl, rfl⟩

/-- The loop for an ancestor has one way to go. -/
theorem Test.unique {ancestor : Resource} {met : List String} {x : Resource}
    {trail others : List Resource} {e e' : WalkEnd Unit} (h : r.Test ancestor met x trail e)
    (h' : r.Test ancestor met x others e') : others = trail ∧ e' = e := by
  induction h generalizing others e' with
  | hit hsame =>
    cases h' with
    | hit => exact ⟨rfl, rfl⟩
    | back hother => exact absurd hsame hother
    | atEnd hother => exact absurd hsame hother
    | on hother => exact absurd hsame hother
  | back hother hmet =>
    cases h' with
    | hit hsame => exact absurd hsame hother
    | back => exact ⟨rfl, rfl⟩
    | atEnd _ hnew => exact absurd hmet hnew
    | on _ hnew => exact absurd hmet hnew
  | atEnd hother hnew hlast =>
    cases h' with
    | hit hsame => exact absurd hsame hother
    | back _ hmet => exact absurd hmet hnew
    | atEnd => exact ⟨rfl, rfl⟩
    | on _ _ hnext => cases hlast.symm.trans hnext
  | on hother hnew hnext _ ih =>
    cases h' with
    | hit hsame => exact absurd hsame hother
    | back _ hmet => exact absurd hmet hnew
    | atEnd _ _ hlast => cases hlast.symm.trans hnext
    | on _ _ hnext' hrest =>
      obtain rfl := Option.some.inj (hnext.symm.trans hnext')
      obtain ⟨rfl, rfl⟩ := ih hrest
      exact ⟨rfl, rfl⟩

/-! ### What the loops do along a chain -/

section

variable {rep : Repository} {met : List String} {x y : Resource}

theorem chainFrom_of_met (fuel : Nat) (h : x.path ∈ met) :
    rep.chainFrom (fuel + 1) met x = ⟨[], some x⟩ := by
  rw [Repository.chainFrom, if_pos (List.contains_iff_mem.2 h)]

theorem chainFrom_of_last (fuel : Nat) (h : x.path ∉ met) (hlast : rep.superTypeOf x = none) :
    rep.chainFrom (fuel + 1) met x = ⟨[x], none⟩ := by
  rw [Repository.chainFrom, if_neg fun hmet => h (List.contains_iff_mem.1 hmet), hlast]

theorem chainFrom_of_next (fuel : Nat) (h : x.path ∉ met) (hnext : rep.superTypeOf x = some y) :
    rep.chainFrom (fuel + 1) met x =
      ⟨x :: (rep.chainFrom fuel (x.path :: met) y).nodes,
        (rep.chainFrom fuel (x.path :: met) y).repeated⟩ := by
  rw [Repository.chainFrom, if_neg fun hmet => h (List.contains_iff_mem.1 hmet), hnext]

/-- A chain begins with the resource that it is the chain of. -/
theorem singleton_prefix_chain (fuel : Nat) (h : x.path ∉ met) :
    [x] <+: (rep.chainFrom (fuel + 1) met x).nodes := by
  cases hsuper : rep.superTypeOf x with
  | none =>
    rewrite [chainFrom_of_last fuel h hsuper]
    exact List.prefix_rfl
  | some y =>
    rw [chainFrom_of_next fuel h hsuper]
    exact List.prefix_append [x] _

end

/-- **The loop for a dependency follows the chain,** and does what looking along the chain does,
unless the chain ran out of fuel. -/
theorem walk_of_chain (dependency : String) (fuel : Nat) (met : List String) (x : Resource)
    (hroom : (r.repository.chainFrom fuel met x).nodes.length < fuel) :
    ∃ trail e, r.Walk dependency met x trail e ∧
      trail <+: (r.repository.chainFrom fuel met x).nodes ∧
      r.lookupAlong dependency (r.repository.chainFrom fuel met x).repeated
          (r.repository.chainFrom fuel met x).nodes =
        ⟨e.found, trail.map (lookingUp dependency) ++ e.notes⟩ := by
  induction fuel generalizing met x with
  | zero => exact absurd hroom (Nat.not_lt_zero _)
  | succ fuel ih =>
    by_cases hmet : x.path ∈ met
    · rw [chainFrom_of_met fuel hmet]
      exact ⟨[], .back x, .back hmet, List.prefix_rfl, rfl⟩
    cases hfound : r.lookupFrom x dependency with
    | some y =>
      refine ⟨[x], .hit y, .hit hmet hfound, singleton_prefix_chain fuel hmet, ?_⟩
      obtain ⟨rest, hrest⟩ :=
        (singleton_prefix_chain fuel hmet : [x] <+: (r.repository.chainFrom (fuel + 1) met x).nodes)
      rw [← hrest, List.singleton_append, lookupAlong, hfound]
      rfl
    | none =>
      cases hsuper : r.repository.superTypeOf x with
      | none =>
        rw [chainFrom_of_last fuel hmet hsuper, lookupAlong, hfound]
        exact ⟨[x], .atEnd, .atEnd hmet hfound hsuper, List.prefix_rfl, rfl⟩
      | some y =>
        rw [chainFrom_of_next fuel hmet hsuper] at hroom ⊢
        obtain ⟨trail, e, hwalk, hfront, hvalue⟩ :=
          ih (x.path :: met) y (Nat.lt_of_succ_lt_succ hroom)
        refine ⟨x :: trail, e, .on hmet hfound hsuper hwalk,
          List.cons_prefix_cons.2 ⟨rfl, hfront⟩, ?_⟩
        rw [lookupAlong, hfound]
        dsimp only
        rw [hvalue]
        rfl

/-- **The loop for an ancestor follows the chain,** and has a hit if the ancestor's path is there. -/
theorem test_of_chain (ancestor : Resource) (fuel : Nat) {met : List String} (x : Resource)
    (hancestor : ancestor.path ∉ met)
    (hroom : (r.repository.chainFrom fuel met x).nodes.length < fuel) :
    ∃ trail e, r.Test ancestor met x trail e ∧
      trail <+: (r.repository.chainFrom fuel met x).nodes ∧
      ((∃ node ∈ (r.repository.chainFrom fuel met x).nodes, node.path = ancestor.path) ∧
          e = .hit () ∨
        (∀ node ∈ (r.repository.chainFrom fuel met x).nodes, node.path ≠ ancestor.path) ∧
          e.found = none ∧
          (warnCycle (r.repository.chainFrom fuel met x).repeated).notes = e.notes) := by
  induction fuel generalizing met x with
  | zero => exact absurd hroom (Nat.not_lt_zero _)
  | succ fuel ih =>
    by_cases hsame : x.path = ancestor.path
    -- a hit is seen before a path that comes back, so the ancestor's must not have been met
    · have hnew : x.path ∉ met := hsame ▸ hancestor
      have hfront : [x] <+: (r.repository.chainFrom (fuel + 1) met x).nodes :=
        singleton_prefix_chain fuel hnew
      refine ⟨[x], .hit (), .hit hsame, hfront, .inl ⟨⟨x, ?_, hsame⟩, rfl⟩⟩
      exact hfront.subset List.mem_cons_self
    by_cases hmet : x.path ∈ met
    · rw [chainFrom_of_met fuel hmet]
      exact ⟨[], .back x, .back hsame hmet, List.prefix_rfl, .inr ⟨nofun, rfl, rfl⟩⟩
    cases hsuper : r.repository.superTypeOf x with
    | none =>
      rw [chainFrom_of_last fuel hmet hsuper]
      refine ⟨[x], .atEnd, .atEnd hsame hmet hsuper, List.prefix_rfl, .inr ⟨?_, rfl, rfl⟩⟩
      intro node hnode
      obtain rfl := List.mem_singleton.1 hnode
      exact hsame
    | some y =>
      rw [chainFrom_of_next fuel hmet hsuper] at hroom ⊢
      have hancestor' : ancestor.path ∉ x.path :: met := by
        rw [List.mem_cons, not_or]
        exact ⟨Ne.symm hsame, hancestor⟩
      obtain ⟨trail, e, htest, hfront, hend⟩ := ih y hancestor' (Nat.lt_of_succ_lt_succ hroom)
      refine ⟨x :: trail, e, .on hsame hmet hsuper htest, List.cons_prefix_cons.2 ⟨rfl, hfront⟩, ?_⟩
      refine hend.imp (And.imp_left fun hon => ?_) (And.imp_left fun hoff => ?_)
      · obtain ⟨node, hnode, hpath⟩ := hon
        exact ⟨node, List.mem_cons_of_mem _ hnode, hpath⟩
      · exact List.forall_mem_cons.2 ⟨hsame, hoff⟩

/-! ### The loops end -/

/-- The chain of a resource does not run out of fuel. -/
theorem superChain_has_room (r : Resolver) (start : Resource) :
    (r.repository.superChain start).nodes.length < r.repository.store.size + 2 := by
  have hline := r.repository.superChain_lineage start
  exact Nat.lt_succ_of_le (Repository.length_le_of_isChain hline.linked hline.distinct)

/-- A beginning of a lineage repeats no path. -/
theorem nodup_of_prefix {start : Resource} {nodes trail : List Resource}
    (hline : r.repository.Lineage start nodes) (h : trail <+: nodes) :
    (trail.map (·.path)).Nodup :=
  hline.distinct.sublist (h.sublist.map _)

/-- **Walks along supertypes end and miss nothing.** From every resource there is one lineage: the
chain up to its end or to the first path that comes back. Each of the two loops ends, in one way, and
the nodes that it consults are a beginning of the lineage, so that none is consulted twice. Looking
for a dependency comes to the hit of the nearest node that has one, and to nothing if there is none;
looking for an ancestor tells whether a node has the ancestor's path, which for a kept resource is
whether it has the ancestor among all of its supertypes. The lookup writes one note for each node that
it consults, and either loop warns of the path that came back if it ended there. -/
theorem supertype_walks_end (r : Resolver) (start : Resource) :
    ∃ nodes, (∀ others, r.repository.Lineage start others ↔ others = nodes) ∧
      nodes.length ≤ r.repository.store.size + 1 ∧
      (∀ dependency, ∃ trail e,
        (∀ others e', r.Walk dependency [] start others e' ↔ others = trail ∧ e' = e) ∧
        trail <+: nodes ∧ (trail.map (·.path)).Nodup ∧
        r.walkHierarchy start dependency =
          ⟨e.found, trail.map (lookingUp dependency) ++ e.notes⟩ ∧
        (∀ hit, e.found = some hit ↔ ∃ nearer node farther, nodes = nearer ++ node :: farther ∧
          r.lookupFrom node dependency = some hit ∧
          ∀ other ∈ nearer, r.lookupFrom other dependency = none) ∧
        (e.found = none ↔ ∀ node ∈ nodes, r.lookupFrom node dependency = none)) ∧
      (∀ ancestor, ∃ trail e,
        (∀ others e', r.Test ancestor [] start others e' ↔ others = trail ∧ e' = e) ∧
        trail <+: nodes ∧ (trail.map (·.path)).Nodup ∧
        r.isResourceType start ancestor = ⟨e.found.isSome, e.notes⟩ ∧
        (e.found.isSome ↔ ∃ node ∈ nodes, node.path = ancestor.path) ∧
        (r.repository.Kept start → (e.found.isSome ↔ r.repository.Inherits start ancestor))) := by
  have hline := r.repository.superChain_lineage start
  have hroom := r.superChain_has_room start
  refine ⟨(r.repository.superChain start).nodes,
    fun others => ⟨fun h => h.unique hline, fun h => h ▸ hline⟩, Nat.le_of_lt_succ hroom,
    fun dependency => ?_, fun ancestor => ?_⟩
  · obtain ⟨trail, e, hwalk, hfront, hvalue⟩ := walk_of_chain dependency _ [] start hroom
    have heq : r.walkHierarchy start dependency =
        ⟨e.found, trail.map (lookingUp dependency) ++ e.notes⟩ := hvalue
    have hfound : e.found =
        (r.repository.superChain start).nodes.findSome? (r.lookupFrom · dependency) := by
      rw [← r.value_walkHierarchy hline dependency, heq]
    refine ⟨trail, e, fun others e' => ⟨fun h => hwalk.unique h, ?_⟩, hfront,
      nodup_of_prefix hline hfront, heq, fun hit => ?_, ?_⟩
    · rintro ⟨rfl, rfl⟩
      exact hwalk
    · rw [hfound, List.findSome?_eq_some_iff]
    · rw [hfound, List.findSome?_eq_none_iff]
  · have htests := test_of_chain ancestor _ start List.not_mem_nil hroom
    rw [← Repository.superChain] at htests
    obtain ⟨trail, e, htest, hfront, hend⟩ := htests
    have hon : e.found.isSome ↔
        ∃ node ∈ (r.repository.superChain start).nodes, node.path = ancestor.path := by
      rcases hend with ⟨hnode, rfl⟩ | ⟨hoff, hnone, -⟩
      · exact iff_of_true rfl hnode
      · rw [hnone]
        exact iff_of_false Bool.false_ne_true fun ⟨node, hnode, hpath⟩ => hoff node hnode hpath
    refine ⟨trail, e, fun others e' => ⟨fun h => htest.unique h, ?_⟩, hfront,
      nodup_of_prefix hline hfront, ?_, hon, fun hkept => ?_⟩
    · rintro ⟨rfl, rfl⟩
      exact htest
    · unfold isResourceType
      dsimp only
      rcases hend with ⟨⟨node, hnode, hpath⟩, rfl⟩ | ⟨hoff, hnone, hnotes⟩
      · rw [if_pos (List.any_eq_true.2 ⟨node, hnode, decide_eq_true hpath⟩)]
        rfl
      · have hnot : ¬ (r.repository.superChain start).nodes.any
            (fun y => decide (y.path = ancestor.path)) = true := by
          rw [List.any_eq_true]
          rintro ⟨node, hnode, hpath⟩
          exact hoff node hnode (of_decide_eq_true hpath)
        rw [if_neg hnot, hnone, ← hnotes]
        exact congrArg (Noted.mk false) (List.append_nil _)
    · rw [hon, Repository.inherits_iff hkept, List.any_eq_true]
      simp only [decide_eq_true_eq]

end Resolver

/-- Three types in a ring, each of which spells its supertype in its own way, and a script next to
the last of them. -/
def Resolver.ring : Resolver :=
  ⟨⟨.memory ⟨[⟨"/apps/a", some "./b/", none⟩, ⟨"/apps/b", some "/apps/x/../c", none⟩,
    ⟨"/apps/c", some "a", none⟩, ⟨"/apps/c/lib.js", none, some "lib"⟩,
    ⟨"/apps/d", some "/apps/a", none⟩]⟩, ["/apps"]⟩, ".js"⟩

/-- Around the ring the script is found next to the last type, and every type of the ring inherits
from that type, but not from one that leads into the ring. -/
theorem Resolver.ring_walks_end :
    (Resolver.ring.walkHierarchy ⟨"/apps/a", some "./b/", none⟩ "lib.js").value =
      some ⟨"/apps/c/lib.js", none, some "lib"⟩ ∧
    Resolver.ring.repository.Kept ⟨"/apps/a", some "./b/", none⟩ ∧
    Resolver.ring.repository.Inherits ⟨"/apps/a", some "./b/", none⟩ ⟨"/apps/c", some "a", none⟩ ∧
    ¬ Resolver.ring.repository.Inherits ⟨"/apps/a", some "./b/", none⟩
      ⟨"/apps/d", some "/apps/a", none⟩ := by
  obtain ⟨nodes, -, -, -, htest⟩ :=
    Resolver.ring.supertype_walks_end ⟨"/apps/a", some "./b/", none⟩
  have hkept : Resolver.ring.repository.Kept ⟨"/apps/a", some "./b/", none⟩ := by
    show Resolver.ring.repository.lookup _ = _
    decide +kernel
  refine ⟨by decide +kernel, hkept, ?_, ?_⟩
  · obtain ⟨trail, e, -, -, -, heq, -, hinherits⟩ := htest ⟨"/apps/c", some "a", none⟩
    have hvalue : (Resolver.ring.isResourceType ⟨"/apps/a", some "./b/", none⟩
        ⟨"/apps/c", some "a", none⟩).value = true := by decide +kernel
    rw [heq] at hvalue
    exact (hinherits hkept).1 hvalue
  · obtain ⟨trail, e, -, -, -, heq, -, hinherits⟩ := htest ⟨"/apps/d", some "/apps/a", none⟩
    have hvalue : (Resolver.ring.isResourceType ⟨"/apps/a", some "./b/", none⟩
        ⟨"/apps/d", some "/apps/a", none⟩).value = false := by decide +kernel
    rw [heq] at hvalue
    intro h
    cases ((hinherits hkept).2 h).symm.trans hvalue

end ScriptModules
