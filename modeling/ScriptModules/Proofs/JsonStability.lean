import ScriptModules.Proofs.Cycles
import ScriptModules.Proofs.Numerals

/-!
# JSON and back

The JSON form of a value loses what JSON cannot say: functions and what is undefined become null, a
container becomes its result, and keys are brought in order. What it gives is settled
(`Json.Settled`): the names of fields increase, and numbers are told apart as integers and floats the
way the conversion does. A value that is made of JSON mirrors it (`Value.Mirrors`), item by item and
key by key. The form of a value that mirrors settled JSON is that JSON again, so nothing more is lost
the second time (`Value.json_stable`).
-/

namespace ScriptModules

/-! ### Fields in order -/

namespace Json

variable {name : String} {value : Json} {fields sorted : List (String × Json)}

/-- The names increase from field to field. -/
def Ordered (fields : List (String × Json)) : Prop := fields.Pairwise fun f g => f.1 < g.1

/-- Storing a field brings in nothing else. -/
theorem eq_or_mem_of_mem_putField {f : String × Json} (h : f ∈ putField name value fields) :
    f = (name, value) ∨ f ∈ fields := by
  induction fields with
  | nil => exact .inl (List.mem_singleton.1 h)
  | cons g rest ih =>
    unfold putField at h
    split at h
    · rcases List.mem_cons.1 h with rfl | h
      · exact .inl rfl
      · exact .inr (List.mem_cons_of_mem _ h)
    · split at h
      · exact List.mem_cons.1 h
      · rcases List.mem_cons.1 h with rfl | h
        · exact .inr List.mem_cons_self
        · exact (ih h).imp_right (List.mem_cons_of_mem _)

theorem Ordered.putField (h : Ordered fields) (name : String) (value : Json) :
    Ordered (putField name value fields) := by
  induction fields with
  | nil => exact List.pairwise_singleton ..
  | cons g rest ih =>
    obtain ⟨hfirst, hrest⟩ := List.pairwise_cons.1 h
    unfold Json.putField
    split
    · next hsame =>
      subst hsame
      exact List.pairwise_cons.2 ⟨hfirst, hrest⟩
    · next hne =>
      split
      · next hlt =>
        -- it comes before all others
        refine List.pairwise_cons.2 ⟨fun f hf => ?_, h⟩
        rcases List.mem_cons.1 hf with rfl | hf
        · exact hlt
        · exact lt_trans hlt (hfirst f hf)
      · next hge =>
        have hbefore : g.1 < name := lt_of_le_of_ne (le_of_not_gt hge) hne
        refine List.pairwise_cons.2 ⟨fun f hf => ?_, ih hrest⟩
        rcases eq_or_mem_of_mem_putField hf with rfl | hf
        · exact hbefore
        · exact hfirst f hf

/-- **The fields that were sorted are in order,** and come from what was given. -/
theorem sortFields_ordered (fields : List (String × Json)) :
    Ordered (sortFields fields) ∧ ∀ f ∈ sortFields fields, f ∈ fields := by
  -- what was stored so far is in order, and stays so with the next field
  have hfold : ∀ (rest sorted : List (String × Json)), Ordered sorted →
      Ordered (rest.foldl (fun sorted f => putField f.1 f.2 sorted) sorted) ∧
        ∀ f ∈ rest.foldl (fun sorted f => putField f.1 f.2 sorted) sorted,
          f ∈ sorted ∨ f ∈ rest := by
    intro rest
    induction rest with
    | nil => exact fun sorted h => ⟨h, fun f hf => .inl hf⟩
    | cons g rest ih =>
      intro sorted h
      obtain ⟨hordered, hfrom⟩ := ih (putField g.1 g.2 sorted) (h.putField g.1 g.2)
      refine ⟨hordered, fun f hf => ?_⟩
      rcases hfrom f hf with hf | hf
      · rcases eq_or_mem_of_mem_putField hf with rfl | hf
        · exact .inr List.mem_cons_self
        · exact .inl hf
      · exact .inr (List.mem_cons_of_mem _ hf)
  obtain ⟨hordered, hfrom⟩ := hfold fields [] List.Pairwise.nil
  exact ⟨hordered, fun f hf => (hfrom f hf).resolve_left nofun⟩

/-- A field whose name is greater than all goes to the end. -/
theorem putField_last (h : ∀ f ∈ fields, f.1 < name) :
    putField name value fields = fields ++ [(name, value)] := by
  induction fields with
  | nil => rfl
  | cons g rest ih =>
    have hg := h g List.mem_cons_self
    unfold putField
    rw [if_neg hg.ne, if_neg (lt_asymm hg), ih fun f hf => h f (List.mem_cons_of_mem _ hf)]
    rfl

/-- **Fields in order stay where they are.** -/
theorem sortFields_of_ordered (h : Ordered fields) : sortFields fields = fields := by
  have hfold : ∀ (rest sorted : List (String × Json)), Ordered (sorted ++ rest) →
      rest.foldl (fun sorted f => putField f.1 f.2 sorted) sorted = sorted ++ rest := by
    intro rest
    induction rest with
    | nil => exact fun sorted _ => (List.append_nil sorted).symm
    | cons g rest ih =>
      intro sorted h
      have hlast : ∀ f ∈ sorted, f.1 < g.1 := fun f hf =>
        (List.pairwise_append.1 h).2.2 f hf g List.mem_cons_self
      have hnext : Ordered ((sorted ++ [(g.1, g.2)]) ++ rest) := by simpa using h
      rw [List.foldl_cons, putField_last hlast, ih _ hnext]
      simp
  exact hfold fields [] h

/-! ### What holds everywhere in a JSON value -/

mutual

/-- A property of a JSON value and of all that stands in it. -/
def Throughout (p : Json → Prop) : Json → Prop
  | .list items => p (.list items) ∧ ThroughoutItems p items
  | .object fields => p (.object fields) ∧ ThroughoutFields p fields
  | .null => p .null
  | .boolean b => p (.boolean b)
  | .integer i => p (.integer i)
  | .float x => p (.float x)
  | .text s => p (.text s)

/-- A property of items and of all that stands in them. -/
def ThroughoutItems (p : Json → Prop) : List Json → Prop
  | [] => True
  | j :: rest => Throughout p j ∧ ThroughoutItems p rest

/-- A property of the values of fields and of all that stands in them. -/
def ThroughoutFields (p : Json → Prop) : List (String × Json) → Prop
  | [] => True
  | (_, j) :: rest => Throughout p j ∧ ThroughoutFields p rest

end

variable {p q : Json → Prop}

theorem throughoutItems_iff {items : List Json} :
    ThroughoutItems p items ↔ ∀ j ∈ items, Throughout p j := by
  induction items with
  | nil => simp [ThroughoutItems]
  | cons j rest ih => rw [ThroughoutItems, ih, List.forall_mem_cons]

theorem throughoutFields_iff :
    ThroughoutFields p fields ↔ ∀ f ∈ fields, Throughout p f.2 := by
  induction fields with
  | nil => simp [ThroughoutFields]
  | cons f rest ih => rw [ThroughoutFields, ih, List.forall_mem_cons]

mutual

theorem Throughout.imp (h : ∀ j, p j → q j) : ∀ j : Json, j.Throughout p → j.Throughout q
  | .list items, hj => ⟨h _ hj.1, ThroughoutItems.imp h items hj.2⟩
  | .object fields, hj => ⟨h _ hj.1, ThroughoutFields.imp h fields hj.2⟩
  | .null, hj => h _ hj
  | .boolean _, hj => h _ hj
  | .integer _, hj => h _ hj
  | .float _, hj => h _ hj
  | .text _, hj => h _ hj

theorem ThroughoutItems.imp (h : ∀ j, p j → q j) :
    ∀ items : List Json, ThroughoutItems p items → ThroughoutItems q items
  | [], _ => trivial
  | j :: rest, hj => ⟨Throughout.imp h j hj.1, ThroughoutItems.imp h rest hj.2⟩

theorem ThroughoutFields.imp (h : ∀ j, p j → q j) :
    ∀ fields : List (String × Json), ThroughoutFields p fields → ThroughoutFields q fields
  | [], _ => trivial
  | (_, j) :: rest, hj => ⟨Throughout.imp h j hj.1, ThroughoutFields.imp h rest hj.2⟩

end

/-- If this is an object, each name stands in it once. -/
def NamesOnce : Json → Prop
  | .object fields => (fields.map Prod.fst).Nodup
  | _ => True

/-- **Each name stands once in an object,** as in every map. -/
def Distinct (j : Json) : Prop := j.Throughout NamesOnce

/-- What a conversion takes care of at one place: fields are in order, integers are small, and floats
are no small integers. -/
def InForm : Json → Prop
  | .object fields => Ordered fields
  | .integer i => i.natAbs < 9 * 10 ^ 15
  | .float x => Value.numberToJson x = .float x
  | _ => True

/-- **JSON as a conversion gives it.** -/
def Settled (j : Json) : Prop := j.Throughout InForm

/-- Names that increase are distinct. -/
theorem Settled.distinct {j : Json} (h : j.Settled) : j.Distinct := by
  refine Throughout.imp (fun j hj => ?_) j h
  cases j with
  | object fields => exact List.pairwise_map.2 (List.Pairwise.imp (fun hlt => hlt.ne) hj)
  | _ => trivial

end Json

/-! ### Numbers -/

namespace Number

/-- Nothing is a whole number, whatever it is multiplied by. -/
theorem zero_whole (e : Int) : isWhole 0 e = true ∧ wholePart 0 e = 0 := by
  unfold isWhole wholePart
  rw [Nat.zero_mod, Nat.zero_mul, Nat.zero_div, ite_self]
  exact ⟨Bool.or_true _, rfl⟩

/-- The form of a number that is whole and small. -/
theorem toJson_of_decode {x : Float} {negative : Bool} {m n : Nat} {e : Int}
    (hx : decode x = .finite negative m e) (hwhole : isWhole m e = true) (hpart : wholePart m e = n)
    (hn : n < 9 * 10 ^ 15) :
    Value.numberToJson x = .integer (if negative then -(n : Int) else n) := by
  have hlimit : 9 * Nat.pow 10 15 = 9 * 10 ^ 15 := rfl
  unfold Value.numberToJson
  simp only [hx, hwhole, hpart, hlimit, Bool.true_and, decide_eq_true hn, if_true]

/-- **An integer of the size that JSON forms have is the form of its float.** -/
theorem toJson_ofInt {i : Int} (hi : i.natAbs < 9 * 10 ^ 15) :
    Value.numberToJson (Float.ofInt i) = .integer i := by
  have hword : ∀ n : Nat, n < 9 * 10 ^ 15 → n < 2 ^ 53 := fun n hn => by omega
  cases i with
  | ofNat n =>
    rcases Nat.eq_zero_or_pos n with rfl | hpos
    · have hzero : decode (Float.ofNat 0) = .finite false 0 (-1074) := by decide +kernel
      exact toJson_of_decode hzero (zero_whole _).1 (zero_whole _).2 hi
    · obtain ⟨hwhole, hpart⟩ := mantissaOf_whole hpos (hword n hi)
      exact toJson_of_decode (decode_ofNat hpos (hword n hi)) hwhole hpart hi
  | negSucc n =>
    obtain ⟨hwhole, hpart⟩ := mantissaOf_whole (Nat.succ_pos n) (hword (n + 1) hi)
    exact toJson_of_decode (decode_neg_ofNat (Nat.succ_pos n) (hword (n + 1) hi)) hwhole hpart hi

/-- The form of a number is settled. -/
theorem toJson_settled (x : Float) : (Value.numberToJson x).Settled := by
  -- a number without a form is null, and a whole number is written as one while it is small
  have hform : Value.numberToJson x = .null ∨ Value.numberToJson x = .float x ∨
      ∃ i : Int, Value.numberToJson x = .integer i ∧ i.natAbs < 9 * 10 ^ 15 := by
    unfold Value.numberToJson
    split
    · next negative m e _ =>
      split
      · next hsmall =>
        obtain ⟨-, hlt⟩ := (Bool.and_eq_true _ _).mp hsmall
        refine .inr (.inr ⟨_, rfl, ?_⟩)
        have hlt := of_decide_eq_true hlt
        cases negative <;> simpa using hlt
      · exact .inr (.inl rfl)
    · exact .inl rfl
  rcases hform with h | h | ⟨i, h, hi⟩
  · rw [h]
    trivial
  · rw [h]
    exact h
  · rw [h]
    exact hi

end Number

/-! ### Maps whose names are distinct -/

namespace OrderedMap

variable {α : Type}

/-- A new name comes to stand at the end. -/
theorem put_last {name : String} {a : α} {entries : List (String × α)}
    (h : name ∉ entries.map Prod.fst) : put name a entries = entries ++ [(name, a)] := by
  induction entries with
  | nil => rfl
  | cons e rest ih =>
    rw [List.map_cons, List.mem_cons, not_or] at h
    obtain ⟨hne, hrest⟩ := h
    rw [put, if_neg (Ne.symm hne), ih hrest]
    rfl

/-- Entries with distinct names make a map that has these entries. -/
theorem entries_ofList {entries : List (String × α)} (h : (entries.map Prod.fst).Nodup) :
    (OrderedMap.ofList entries).entries = entries := by
  have hfold : ∀ (rest : List (String × α)) (m : OrderedMap α),
      ((m.entries ++ rest).map Prod.fst).Nodup →
        (rest.foldl (fun m e => m.insert e.1 e.2) m).entries = m.entries ++ rest := by
    intro rest
    induction rest with
    | nil => exact fun m _ => (List.append_nil m.entries).symm
    | cons e rest ih =>
      intro m h
      have hnew : e.1 ∉ m.entries.map Prod.fst := by
        rw [List.map_append, List.map_cons] at h
        exact fun hmem => (List.disjoint_of_nodup_append h) hmem List.mem_cons_self
      have hinsert : (m.insert e.1 e.2).entries = m.entries ++ [e] := put_last hnew
      rw [List.foldl_cons, ih (m.insert e.1 e.2) (by rw [hinsert]; simpa using h), hinsert]
      simp
  exact hfold entries .empty h

end OrderedMap

/-! ### Worlds to which things are added -/

/-- **Lists and objects are what they were;** others may have come. -/
structure World.Extends (w w' : World) : Prop where
  lists : ∀ l vs, w.lists.get? l = some vs → w'.lists.get? l = some vs
  objects : ∀ o x, w.objects.get? o = some x → w'.objects.get? o = some x

namespace World.Extends

variable {w₁ w₂ : World}

theorem refl (w : World) : w.Extends w := ⟨fun _ _ => id, fun _ _ => id⟩

theorem trans {w : World} (h : w.Extends w₁) (h' : w₁.Extends w₂) : w.Extends w₂ where
  lists l vs hl := h'.lists l vs (h.lists l vs hl)
  objects o x ho := h'.objects o x (h.objects o x ho)

theorem addList (w : World) (vs : Array Value) :
    w.Extends { w with lists := w.lists.add vs } where
  lists _ _ := Table.get?_add_of_get?_eq_some vs
  objects _ _ := id

theorem addObject (w : World) (x : Object) : w.Extends { w with objects := w.objects.add x } where
  lists _ _ := id
  objects _ _ := Table.get?_add_of_get?_eq_some x

end World.Extends

namespace Value

variable {w w' : World} {v : Value} {j : Json}

/-! ### The form of a value -/

/-- **A JSON form is settled.** -/
theorem toJsonIn_settled {n : Nat} (h : toJsonIn w n v = some j) : j.Settled := by
  induction n generalizing v j with
  | zero =>
    cases v with
    | number x =>
      obtain rfl := Option.some.inj h
      exact Number.toJson_settled x
    | list | object | container => cases h
    | undefined | null | boolean | text | function =>
      obtain rfl := Option.some.inj h
      trivial
  | succ n ih =>
    rw [toJsonIn_succ] at h
    cases v with
    | list l =>
      obtain ⟨js, hjs, rfl⟩ := Option.map_eq_some_iff.1 h
      refine ⟨trivial, Json.throughoutItems_iff.2 fun j hj => ?_⟩
      obtain ⟨u, -, hu⟩ := exists_of_mem_mapM hjs hj
      exact ih hu
    | object o =>
      obtain ⟨fields, hfields, rfl⟩ := Option.map_eq_some_iff.1 h
      -- sorting puts the keys in order, and what stands there is still the form of a property
      obtain ⟨hordered, hfrom⟩ := Json.sortFields_ordered fields
      refine ⟨hordered, Json.throughoutFields_iff.2 fun f hf => ?_⟩
      obtain ⟨p, -, hp⟩ := exists_of_mem_mapM hfields (hfrom f hf)
      obtain ⟨j, hj, rfl⟩ := Option.map_eq_some_iff.1 hp
      exact ih hj
    | container c =>
      simp only [jsonStep] at h
      cases hc : w.result? c with
      | none =>
        rw [hc] at h
        obtain rfl := Option.some.inj h
        trivial
      | some r =>
        rw [hc] at h
        exact ih h
    | number x =>
      obtain rfl := Option.some.inj h
      exact Number.toJson_settled x
    | undefined | null | boolean | text | function =>
      obtain rfl := Option.some.inj h
      trivial

/-! ### Values that mirror JSON -/

mutual

/-- **A value that mirrors a JSON value.** A list has the items of the JSON list, in its order, and an
object the keys of the JSON object, in its order; what stands there mirrors what stands there. -/
def Mirrors (w : World) (v : Value) : Json → Prop
  | .null => v = .null
  | .boolean b => v = .boolean b
  | .integer i => v = .number (Float.ofInt i)
  | .float x => v = .number x
  | .text s => v = .text s
  | .list items => ∃ l vs, v = .list l ∧ w.lists.get? l = some vs ∧ MirrorItems w vs.toList items
  | .object fields => ∃ o x, v = .object o ∧ w.objects.get? o = some x ∧
      MirrorFields w x.properties.entries fields

/-- Values that mirror JSON values one by one. -/
def MirrorItems (w : World) : List Value → List Json → Prop
  | [], [] => True
  | v :: vs, j :: js => Mirrors w v j ∧ MirrorItems w vs js
  | _, _ => False

/-- Properties that mirror fields one by one. -/
def MirrorFields (w : World) : List (String × Value) → List (String × Json) → Prop
  | [], [] => True
  | (key, v) :: properties, (name, j) :: fields =>
    key = name ∧ Mirrors w v j ∧ MirrorFields w properties fields
  | _, _ => False

end

variable {properties : List (String × Value)} {fields : List (String × Json)}

/-- The keys of what mirrors an object are its names. -/
theorem MirrorFields.keys (h : MirrorFields w properties fields) :
    properties.map Prod.fst = fields.map Prod.fst := by
  induction properties generalizing fields with
  | nil =>
    cases fields with
    | nil => rfl
    | cons _ _ => exact h.elim
  | cons p rest ih =>
    cases fields with
    | nil => exact h.elim
    | cons f fields =>
      obtain ⟨hname, -, hrest⟩ := h
      rw [List.map_cons, List.map_cons, ih hrest, hname]

mutual

/-- It goes on to mirror it when more is made. -/
theorem Mirrors.later (hw : w.Extends w') : ∀ (j : Json) {v : Value}, v.Mirrors w j → v.Mirrors w' j
  | .null, _, h => h
  | .boolean _, _, h => h
  | .integer _, _, h => h
  | .float _, _, h => h
  | .text _, _, h => h
  | .list items, _, ⟨l, vs, hv, hl, h⟩ => ⟨l, vs, hv, hw.lists l vs hl, MirrorItems.later hw items h⟩
  | .object fields, _, ⟨o, x, hv, ho, h⟩ =>
    ⟨o, x, hv, hw.objects o x ho, MirrorFields.later hw fields h⟩

theorem MirrorItems.later (hw : w.Extends w') :
    ∀ (js : List Json) {vs : List Value}, MirrorItems w vs js → MirrorItems w' vs js
  | [], [], _ => trivial
  | j :: js, _ :: _, h => ⟨Mirrors.later hw j h.1, MirrorItems.later hw js h.2⟩

theorem MirrorFields.later (hw : w.Extends w') : ∀ (fields : List (String × Json))
    {properties : List (String × Value)}, MirrorFields w properties fields →
      MirrorFields w' properties fields
  | [], [], _ => trivial
  | (_, j) :: fields, (_, _) :: _, h =>
    ⟨h.1, Mirrors.later hw j h.2.1, MirrorFields.later hw fields h.2.2⟩

end

/-! ### Making values of JSON -/

mutual

/-- **A value that is made of JSON mirrors it,** and what there was stays as it is. -/
theorem ofJson_mirrors {ε : Type} : ∀ (j : Json) (w : World), j.Distinct →
    ∃ v w', (ofJson j : Run ε Value) w = (.done v, w') ∧ w.Extends w' ∧ v.Mirrors w' j
  | .null, w, _ => ⟨_, w, rfl, .refl w, rfl⟩
  | .boolean _, w, _ => ⟨_, w, rfl, .refl w, rfl⟩
  | .integer _, w, _ => ⟨_, w, rfl, .refl w, rfl⟩
  | .float _, w, _ => ⟨_, w, rfl, .refl w, rfl⟩
  | .text _, w, _ => ⟨_, w, rfl, .refl w, rfl⟩
  | .list items, w, h => by
    obtain ⟨vs, w₁, hrun, hkept, hitems⟩ := ofJsonItems_mirrors (ε := ε) items w h.2
    have hnew := World.Extends.addList w₁ vs.toArray
    refine ⟨_, _, Run.bind_of_done hrun, hkept.trans hnew, w₁.lists.fresh, vs.toArray, rfl,
      Table.get?_add_fresh _ _, ?_⟩
    exact MirrorItems.later hnew items hitems
  | .object fields, w, h => by
    obtain ⟨properties, w₁, hrun, hkept, hfields⟩ := ofJsonFields_mirrors (ε := ε) fields w h.2
    have hnew := World.Extends.addObject w₁ { properties := .ofList properties }
    refine ⟨_, _, Run.bind_of_done hrun, hkept.trans hnew, w₁.objects.fresh,
      { properties := .ofList properties }, rfl, Table.get?_add_fresh _ _, ?_⟩
    -- each key stands once, so none is overwritten
    have hkeys : (properties.map Prod.fst).Nodup := by
      rw [hfields.keys]
      exact h.1
    rw [OrderedMap.entries_ofList hkeys]
    exact MirrorFields.later hnew fields hfields

theorem ofJsonItems_mirrors {ε : Type} : ∀ (js : List Json) (w : World),
    Json.ThroughoutItems Json.NamesOnce js → ∃ vs w', (ofJsonItems js : Run ε _) w = (.done vs, w') ∧
      w.Extends w' ∧ MirrorItems w' vs js
  | [], w, _ => ⟨[], w, rfl, .refl w, trivial⟩
  | j :: rest, w, h => by
    obtain ⟨v, w₁, hrun, hkept, hv⟩ := ofJson_mirrors (ε := ε) j w h.1
    obtain ⟨vs, w₂, hrest, hkept', hvs⟩ := ofJsonItems_mirrors (ε := ε) rest w₁ h.2
    exact ⟨v :: vs, w₂, (Run.bind_of_done hrun).trans (Run.bind_of_done hrest),
      hkept.trans hkept', Mirrors.later hkept' j hv, hvs⟩

theorem ofJsonFields_mirrors {ε : Type} : ∀ (fields : List (String × Json)) (w : World),
    Json.ThroughoutFields Json.NamesOnce fields → ∃ properties w',
      (ofJsonFields fields : Run ε _) w = (.done properties, w') ∧ w.Extends w' ∧
        MirrorFields w' properties fields
  | [], w, _ => ⟨[], w, rfl, .refl w, trivial⟩
  | (name, j) :: rest, w, h => by
    obtain ⟨v, w₁, hrun, hkept, hv⟩ := ofJson_mirrors (ε := ε) j w h.1
    obtain ⟨properties, w₂, hrest, hkept', hproperties⟩ :=
      ofJsonFields_mirrors (ε := ε) rest w₁ h.2
    exact ⟨(name, v) :: properties, w₂, (Run.bind_of_done hrun).trans (Run.bind_of_done hrest),
      hkept.trans hkept', rfl, Mirrors.later hkept' j hv, hproperties⟩

end

/-! ### The form of what mirrors settled JSON -/

mutual

/-- **The form of what mirrors settled JSON is that JSON.** -/
theorem Mirrors.exists_form : ∀ (j : Json) {v : Value}, v.Mirrors w j → j.Settled →
    ∃ n, toJsonIn w n v = some j
  | .null, _, h, _ => ⟨0, h ▸ rfl⟩
  | .boolean _, _, h, _ => ⟨0, h ▸ rfl⟩
  | .integer _, _, h, hj => ⟨0, h ▸ congrArg some (Number.toJson_ofInt hj)⟩
  | .float _, _, h, hj => ⟨0, h ▸ congrArg some hj⟩
  | .text _, _, h, _ => ⟨0, h ▸ rfl⟩
  | .list items, _, ⟨l, vs, hv, hl, h⟩, hj => by
    obtain ⟨n, hn⟩ := MirrorItems.exists_forms items h hj.2
    have hitems : w.items l = vs := by rw [World.items, hl, Option.getD_some]
    refine ⟨n + 1, ?_⟩
    rw [hv, toJsonIn_succ, jsonStep, hitems, hn, Option.map_some]
  | .object fields, _, ⟨o, x, hv, ho, h⟩, hj => by
    obtain ⟨n, hn⟩ := MirrorFields.exists_forms fields h hj.2
    have hobject : w.object o = x := by rw [World.object, ho, Option.getD_some]
    refine ⟨n + 1, ?_⟩
    rw [hv, toJsonIn_succ, jsonStep, hobject, hn, Option.map_some,
      Json.sortFields_of_ordered hj.1]

theorem MirrorItems.exists_forms : ∀ (js : List Json) {vs : List Value}, MirrorItems w vs js →
    Json.ThroughoutItems Json.InForm js → ∃ n, vs.mapM (toJsonIn w n) = some js
  | [], [], _, _ => ⟨0, rfl⟩
  | j :: js, v :: vs, h, hj => by
    obtain ⟨n, hn⟩ := Mirrors.exists_form j h.1 hj.1
    obtain ⟨m, hm⟩ := MirrorItems.exists_forms js h.2 hj.2
    have hfirst := toJsonIn_noLess (Nat.le_max_left n m) v j hn
    have hrest := mapM_noLess (toJsonIn_noLess (Nat.le_max_right n m)) hm
    exact ⟨max n m, mapM_eq_some_iff.2 (.cons hfirst (mapM_eq_some_iff.1 hrest))⟩

theorem MirrorFields.exists_forms : ∀ (fields : List (String × Json))
    {properties : List (String × Value)}, MirrorFields w properties fields →
      Json.ThroughoutFields Json.InForm fields →
      ∃ n, (properties.mapM fun p => (toJsonIn w n p.2).map fun j => (p.1, j)) = some fields
  | [], [], _, _ => ⟨0, rfl⟩
  | (name, j) :: fields, (key, v) :: properties, h, hj => by
    obtain ⟨rfl, hv, hrest⟩ := h
    obtain ⟨n, hn⟩ := Mirrors.exists_form j hv hj.1
    obtain ⟨m, hm⟩ := MirrorFields.exists_forms fields hrest hj.2
    have hfirst := toJsonIn_noLess (Nat.le_max_left n m) v j hn
    have hmore : ∀ (p : String × Value) f,
        (toJsonIn w m p.2).map (fun j => (p.1, j)) = some f →
          (toJsonIn w (max n m) p.2).map (fun j => (p.1, j)) = some f := by
      intro p f hp
      obtain ⟨j, hj, rfl⟩ := Option.map_eq_some_iff.1 hp
      exact Option.map_eq_some_iff.2 ⟨j, toJsonIn_noLess (Nat.le_max_right n m) _ j hj, rfl⟩
    exact ⟨max n m, mapM_eq_some_iff.2
      (.cons (Option.map_eq_some_iff.2 ⟨j, hfirst, rfl⟩) (mapM_eq_some_iff.1 (mapM_noLess hmore hm)))⟩

end

/-- **JSON conversion is stable.** A value without cycles has a JSON form. The value that is made of it,
in whatever world, has the same form: the second conversion loses nothing. And every JSON value whose
objects have each name once makes a value that mirrors it, with lists of the same length and order and
objects with its keys in its order. -/
theorem json_stable {ε : Type} :
    (∀ (w : World) (v : Value), v.Acyclic w → ∃ j, v.toJson? w = some j ∧
      ∀ w₀ : World, ∃ v' w₁, (ofJson j : Run ε Value) w₀ = (.done v', w₁) ∧
        v'.toJson? w₁ = some j) ∧
    ∀ (j : Json) (w₀ : World), j.Distinct →
      ∃ v w₁, (ofJson j : Run ε Value) w₀ = (.done v, w₁) ∧ v.Mirrors w₁ j := by
  refine ⟨fun w v hv => ?_, fun j w₀ hj => ?_⟩
  · obtain ⟨j, hform⟩ := Option.isSome_iff_exists.1 (toJson?_isSome_iff.2 hv)
    have hsettled : j.Settled := toJsonIn_settled hform
    refine ⟨j, hform, fun w₀ => ?_⟩
    obtain ⟨v', w₁, hrun, -, hmirrors⟩ := ofJson_mirrors (ε := ε) j w₀ hsettled.distinct
    obtain ⟨n, hn⟩ := Mirrors.exists_form j hmirrors hsettled
    exact ⟨v', w₁, hrun, toJson?_of_toJsonIn hn⟩
  · obtain ⟨v, w₁, hrun, -, hmirrors⟩ := ofJson_mirrors (ε := ε) j w₀ hj
    exact ⟨v, w₁, hrun, hmirrors⟩

/-- A list, a container that has it as its result, and an object that holds both. -/
def sharing : World :=
  { World.empty with
    lists := ⟨#[#[.undefined, .text "x"]]⟩
    containers := ⟨#[.resolved (.list ⟨0⟩)]⟩
    objects := ⟨#[{ properties := .ofList [("b", .list ⟨0⟩), ("a", .container ⟨0⟩)] }]⟩ }

/-- What is undefined becomes null, the container its result, and the keys change places; what is made
of that has the same form. -/
theorem sharing_stable :
    let j : Json := .object [("a", .list [.null, .text "x"]), ("b", .list [.null, .text "x"])]
    (Value.object ⟨0⟩).Acyclic sharing ∧ (Value.object ⟨0⟩).toJson? sharing = some j ∧
    (∃ v w, (ofJson j : Run ScriptError Value) .empty = (.done v, w) ∧ v.toJson? w = some j) ∧
    j.Distinct ∧ ∃ v w, (ofJson j : Run ScriptError Value) .empty = (.done v, w) ∧ v.Mirrors w j := by
  intro j
  obtain ⟨stable, mirrored⟩ := json_stable (ε := ScriptError)
  have hform : (Value.object ⟨0⟩).toJson? sharing = some j := rfl
  have hacyclic : (Value.object ⟨0⟩).Acyclic sharing :=
    toJson?_isSome_iff.1 (Option.isSome_iff_exists.2 ⟨j, hform⟩)
  have hdistinct : j.Distinct := (toJsonIn_settled hform).distinct
  obtain ⟨j', hj', hagain⟩ := stable sharing (.object ⟨0⟩) hacyclic
  obtain rfl := Option.some.inj (hj'.symm.trans hform)
  exact ⟨hacyclic, hform, hagain .empty, hdistinct, mirrored _ .empty hdistinct⟩

end Value

end ScriptModules
