import ScriptModules.Proofs.Lexemes
import ScriptModules.Proofs.ListGrowth

/-!
# Items and their keys

A key reaches an item of a list, or a character of a text, if it is the decimal text of the index:
no sign, no zero at its head, and no more than 64 bits hold. Digits behind a plus sign are taken for
an index too (`parseIndex_eq_some_iff`). So keys without a plus sign reach items of their own
(`Run.items_apart`), and `+1` is another key of the item at `1` (`Run.signed_key_overwrites`).

What is written at an index is read there, through every mention of the list, and nothing else
changes (`Run.read_after_write`). Behind the end of the list and the greatest length a write is
refused, as long as the index is a word (`Run.write_out_of_range`).
-/

namespace ScriptModules

/-! ### Decimal texts -/

namespace Number

theorem isDigit_iff {c : Char} : isDigit c = true ↔ '0'.toNat ≤ c.toNat ∧ c.toNat ≤ '9'.toNat := by
  unfold isDigit
  rw [Bool.and_eq_true, decide_eq_true_iff, decide_eq_true_iff]
  rfl

theorem digitValue_lt {c : Char} (hc : isDigit c = true) : digitValue c < 10 := by
  obtain ⟨hlow, hhigh⟩ := isDigit_iff.1 hc
  have hnine : '9'.toNat = '0'.toNat + 9 := rfl
  unfold digitValue
  omega

/-- A digit is written for its value. -/
theorem digitChar_digitValue {c : Char} (hc : isDigit c = true) :
    Nat.digitChar (digitValue c) = c := by
  obtain ⟨hlow, -⟩ := isDigit_iff.1 hc
  have hzero : '0'.toNat = 48 := rfl
  apply Char.toNat_inj.1
  rw [Nat.toNat_digitChar_of_lt_ten (digitValue_lt hc), digitValue]
  omega

/-- The decimal text of a number has its value. -/
theorem digitsValue_toDigits (n : Nat) : digitsValue (Nat.toDigits 10 n) = n :=
  Nat.ofDigitChars_ten_toDigits

theorem toDigits_digits (n : Nat) : Digits (Nat.toDigits 10 n) := by
  refine ⟨Nat.toDigits_ne_nil, fun c hc => isDigit_iff.2 ?_⟩
  have hdigit : c.isDigit = true := Nat.isDigit_of_mem_toDigits (by decide) (by decide) hc
  rw [Char.isDigit, Bool.and_eq_true, decide_eq_true_iff, decide_eq_true_iff] at hdigit
  exact hdigit

/-- No zero stands at the head of a positive number. -/
theorem exists_toDigits {n : Nat} (hn : 0 < n) : ∃ c cs, Nat.toDigits 10 n = c :: cs ∧ c ≠ '0' := by
  induction n using Nat.strongRecOn with
  | ind n ih =>
    rcases Nat.lt_or_ge n 10 with hlt | hge
    · refine ⟨n.digitChar, [], Nat.toDigits_of_lt_base hlt, fun hzero => ?_⟩
      rw [Nat.digitChar_eq_zero] at hzero
      omega
    · -- the text begins as that of the number without its last digit
      obtain ⟨c, cs, hcs, hc⟩ := ih (n / 10) (by omega) (by omega)
      refine ⟨c, cs ++ [(n % 10).digitChar], ?_, hc⟩
      rw [Nat.toDigits_of_base_le (by decide) hge, hcs, List.cons_append]

/-- Digits behind the text of a positive number make the text of a greater one. -/
theorem toDigits_append {ds : List Char} (hds : ∀ c ∈ ds, isDigit c = true) {n : Nat} (hn : 0 < n) :
    Nat.toDigits 10 n ++ ds = Nat.toDigits 10 (Nat.ofDigitChars 10 ds n) := by
  induction ds generalizing n with
  | nil => rw [List.append_nil, Nat.ofDigitChars_nil]
  | cons c ds ih =>
    obtain ⟨hc, hds⟩ := List.forall_mem_cons.1 hds
    have hone : Nat.toDigits 10 n ++ [c] = Nat.toDigits 10 (10 * n + digitValue c) := by
      rw [← Nat.toDigits_append_toDigits (by decide) hn (digitValue_lt hc),
        Nat.toDigits_of_lt_base (digitValue_lt hc), digitChar_digitValue hc]
    calc Nat.toDigits 10 n ++ c :: ds
        = (Nat.toDigits 10 n ++ [c]) ++ ds := (List.append_cons ..)
      _ = Nat.toDigits 10 (10 * n + digitValue c) ++ ds := by rw [hone]
      _ = Nat.toDigits 10 (Nat.ofDigitChars 10 ds (10 * n + digitValue c)) :=
        ih hds (Nat.add_pos_left (Nat.mul_pos (by decide) hn) _)
      _ = Nat.toDigits 10 (Nat.ofDigitChars 10 (c :: ds) n) := by
        rw [Nat.ofDigitChars_cons, digitValue]

/-- **Digits without a zero at their head are the decimal text of their value.** -/
theorem toDigits_digitsValue {c : Char} {ds : List Char} (hds : Digits (c :: ds)) (hc : c ≠ '0') :
    Nat.toDigits 10 (digitsValue (c :: ds)) = c :: ds := by
  obtain ⟨hdigit, hds⟩ := List.forall_mem_cons.1 hds.2
  have hpos : 0 < digitValue c := by
    refine Nat.pos_of_ne_zero fun hzero => hc ?_
    rw [← digitChar_digitValue hdigit, hzero]
    rfl
  have hvalue : digitsValue (c :: ds) = Nat.ofDigitChars 10 ds (digitValue c) := by
    change Nat.ofDigitChars 10 ds (10 * 0 + digitValue c) = _
    rw [Nat.mul_zero, Nat.zero_add]
  rw [hvalue, ← toDigits_append hds hpos, Nat.toDigits_of_lt_base (digitValue_lt hdigit),
    digitChar_digitValue hdigit, List.singleton_append]

end Number

open Number (Digits digitsValue)

/-! ### Keys of indices -/

theorem indexOfDigits?_of_digits {ds : List Char} (hds : Digits ds) :
    indexOfDigits? ds = if digitsValue ds < 2 ^ 64 then some (digitsValue ds) else none := by
  have hne : ds.isEmpty = false := List.isEmpty_eq_false_iff.2 hds.1
  have hall : ds.all Number.isDigit = true := List.all_eq_true.2 hds.2
  have hword : digitsValue ds ≤ Number.largestWord ↔ digitsValue ds < 2 ^ 64 := Nat.lt_succ_iff.symm
  simp only [indexOfDigits?, hne, hall, hword, Bool.not_true, Bool.or_self, Bool.false_eq_true, if_false]

theorem digits_of_indexOfDigits? {ds : List Char} {i : Nat} (h : indexOfDigits? ds = some i) :
    Digits ds := by
  unfold indexOfDigits? at h
  split at h
  · cases h
  · next hds =>
    simp only [Bool.or_eq_true, Bool.not_eq_true', not_or, Bool.not_eq_true, Bool.not_eq_false] at hds
    exact ⟨List.isEmpty_eq_false_iff.1 hds.1, List.all_eq_true.1 hds.2⟩

/-- The decimal text of a word is read back. -/
theorem parseIndex_toString (i : Nat) :
    parseIndex (toString i) = if i < 2 ^ 64 then some i else none := by
  rcases Nat.eq_zero_or_pos i with rfl | hpos
  · decide
  · obtain ⟨c, cs, hcs, hc⟩ := Number.exists_toDigits hpos
    have hdigits : Digits (c :: cs) := hcs ▸ Number.toDigits_digits i
    have hvalue : digitsValue (c :: cs) = i := hcs ▸ Number.digitsValue_toDigits i
    have hplus : c ≠ '+' := by
      rintro rfl
      exact absurd (hdigits.2 _ (List.mem_cons_self ..)) (by decide)
    have hlist : (toString i).toList = c :: cs := by
      rw [Nat.toString_eq_repr, Nat.toList_repr, hcs]
    unfold parseIndex
    rw [hlist]
    split
    · next h => cases h
    · next h => exact absurd (List.cons.inj h).1 hc
    · next h => exact absurd (List.cons.inj h).1 hplus
    · rw [indexOfDigits?_of_digits hdigits, hvalue]

/-- Another way to write the index: a plus sign before digits. -/
def SignedIndex (key : String) (i : Nat) : Prop :=
  ∃ ds, Digits ds ∧ digitsValue ds = i ∧ key = String.ofList ('+' :: ds)

/-- **What keys are read as indices.** -/
theorem parseIndex_eq_some_iff {key : String} {i : Nat} :
    parseIndex key = some i ↔ i < 2 ^ 64 ∧ (key = toString i ∨ SignedIndex key i) := by
  constructor
  · intro h
    have hread : ∀ {ds}, indexOfDigits? ds = some i → Digits ds ∧ digitsValue ds = i ∧ i < 2 ^ 64 := by
      intro ds h
      have hds := digits_of_indexOfDigits? h
      rw [indexOfDigits?_of_digits hds] at h
      split at h
      · next hword =>
        obtain rfl := Option.some.inj h
        exact ⟨hds, rfl, hword⟩
      · cases h
    have hkey : ∀ {cs}, key.toList = cs → key = String.ofList cs := fun h => by
      rw [← h, String.ofList_toList]
    unfold parseIndex at h
    split at h
    · cases h
    · cases h
    · next ds hcs =>
      obtain ⟨hds, hvalue, hword⟩ := hread h
      exact ⟨hword, .inr ⟨ds, hds, hvalue, hkey hcs⟩⟩
    · next hempty hzeros _ =>
      obtain ⟨hds, hvalue, hword⟩ := hread h
      refine ⟨hword, .inl ?_⟩
      have hdecimal : Nat.toDigits 10 i = key.toList := by
        rw [← hvalue]
        cases hlist : key.toList with
        | nil => exact absurd hlist hempty
        | cons c ds =>
          by_cases hc : c = '0'
          · -- a zero at the head stands alone
            subst hc
            cases ds with
            | nil => rfl
            | cons d ds => exact absurd hlist (hzeros d ds)
          · exact Number.toDigits_digitsValue (hlist ▸ hds) hc
      rw [Nat.toString_eq_repr, Nat.repr_eq_ofList_toDigits, hdecimal, String.ofList_toList]
  · rintro ⟨hword, rfl | ⟨ds, hds, rfl, rfl⟩⟩
    · rw [parseIndex_toString, if_pos hword]
    · have hparse : parseIndex (String.ofList ('+' :: ds)) = indexOfDigits? ds := by
        unfold parseIndex
        rw [String.toList_ofList]
        rfl
      rw [hparse, indexOfDigits?_of_digits hds, if_pos hword]

/-- Without a plus sign only the decimal text is read. -/
theorem parseIndex_of_unsigned {key : String} (hkey : key.toList.head? ≠ some '+') {i : Nat} :
    parseIndex key = some i ↔ i < 2 ^ 64 ∧ key = toString i := by
  rw [parseIndex_eq_some_iff]
  refine and_congr_right fun _ => or_iff_left ?_
  rintro ⟨ds, -, -, rfl⟩
  exact hkey (by rw [String.toList_ofList]; rfl)

/-! ### Reading and writing items -/

/-- **What is read behind a write,** also in the gap that it filled. -/
theorem getD_writeItem (items : Array Value) (i j : Nat) (v : Value) :
    ((writeItem items i v)[j]?).getD .undefined =
      if j = i then v else (items[j]?).getD .undefined := by
  unfold writeItem
  split
  · next hlt =>
    rw [Array.getElem?_setIfInBounds]
    split
    · next h => rw [if_pos h.symm, Option.getD_some]
    · next h => rw [if_neg (Ne.symm h)]
  · next hge =>
    -- the gap is filled up to the index, and there the value is pushed
    have hsize : (items ++ Array.replicate (i - items.size) Value.undefined).size = i := by
      rw [Array.size_append, Array.size_replicate]
      omega
    rw [Array.getElem?_push, hsize]
    split
    · rfl
    · rw [Array.getElem?_append]
      split
      · rfl
      · next hj =>
        rw [Array.getElem?_eq_none (Nat.le_of_not_lt hj), Array.getElem?_replicate]
        split <;> rfl

theorem World.items_changeItems {w : World} {l : Ref .list} {items : Array Value}
    (h : w.lists.get? l = some items) (f : Array Value → Array Value) :
    (w.changeItems l f).items l = f items := by
  rw [World.items, World.changeItems, Table.get?_update, if_pos rfl, h]
  rfl

theorem World.items_changeItems_of_none {w : World} {l : Ref .list} (h : w.lists.get? l = none)
    (f : Array Value → Array Value) : (w.changeItems l f).items l = w.items l := by
  rw [World.items, World.items, World.changeItems, Table.get?_update, if_pos rfl, h]
  rfl

/-! ### What keys do -/

/-- Lists read their item at the index with the key. -/
def ReadsItem (key : String) (i : Nat) : Prop :=
  ∀ l w, Run.getMember (.list l) key w = (.done (((w.items l)[i]?).getD .undefined), w)

/-- Texts read their character at the index with the key. -/
def ReadsCharacter (key : String) (i : Nat) : Prop :=
  ∀ s w, Run.getMember (.text s) key w =
    (.done (((s.toList[i]?).map fun c => Value.text (String.ofList [c])).getD .undefined), w)

/-- Lists write their item at the index with the key, unless it is too far behind their end. -/
def WritesItem (key : String) (i : Nat) : Prop :=
  ∀ l v w, Run.setMember (.list l) key v w =
    if max (w.items l).size (2 ^ 20) ≤ i then
      (.failed (.thrown s!"RangeError: Invalid array index {i}"), w)
    else (.done (), w.changeItems l fun items => writeItem items i v)

section

variable {key : String} {i : Nat}

theorem Run.setMember_of_parseIndex (h : parseIndex key = some i) (l : Ref .list) (v : Value)
    (w : World) : Run.setMember (.list l) key v w =
      if max (w.items l).size (2 ^ 20) ≤ i then
        (.failed (.thrown s!"RangeError: Invalid array index {i}"), w)
      else (.done (), w.changeItems l fun items => writeItem items i v) := by
  change Run.setListMember l key v w = _
  unfold Run.setListMember
  simp only [h, Nat.max_le]
  rfl

/-- A key of no index changes no list. -/
theorem Run.setMember_of_parseIndex_none (h : parseIndex key = none) (l : Ref .list) (v : Value)
    (w : World) : Run.setMember (.list l) key v w = (.done (), w) := by
  change Run.setListMember l key v w = _
  unfold Run.setListMember
  rw [h]
  rfl

theorem ne_length_of_parseIndex (h : parseIndex key = some i) : key ≠ "length" := by
  rintro rfl
  have hnone : parseIndex "length" = none := by decide
  exact absurd (hnone.symm.trans h) nofun

theorem Run.getMember_of_parseIndex (h : parseIndex key = some i) (l : Ref .list) (w : World) :
    Run.getMember (.list l) key w = (.done (((w.items l)[i]?).getD .undefined), w) := by
  change Run.getListMember l key w = _
  unfold Run.getListMember
  simp only [Run.bind_apply, Run.read_apply, if_neg (ne_length_of_parseIndex h), h, Run.pure_apply]

/-- Other members of a list are its length and functions, so none of them is null. -/
theorem Run.getMember_of_parseIndex_none (h : parseIndex key = none) (l : Ref .list) (w : World) :
    (Run.getMember (.list l) key w).1 ≠ .done .null := by
  change (Run.getListMember l key w).1 ≠ _
  unfold Run.getListMember
  simp only [Run.bind_apply, Run.read_apply, h]
  split
  · nofun
  · cases hmethod : ListMethod.ofName? key with
    | some m | none =>
      simp only
      nofun

theorem Run.getTextMember_of_parseIndex (h : parseIndex key = some i) (s : String) (w : World) :
    Run.getMember (.text s) key w =
      (.done (((s.toList[i]?).map fun c => Value.text (String.ofList [c])).getD .undefined), w) := by
  change Run.getTextMember s key w = _
  unfold Run.getTextMember
  simp only [if_neg (ne_length_of_parseIndex h), h]
  cases s.toList[i]? <;> rfl

/-- Other members of a text are its length and functions, so none of them is a text. -/
theorem Run.getTextMember_of_parseIndex_none (h : parseIndex key = none) (s t : String) (w : World) :
    (Run.getMember (.text s) key w).1 ≠ .done (.text t) := by
  change (Run.getTextMember s key w).1 ≠ _
  unfold Run.getTextMember
  simp only [h]
  split
  · nofun
  · cases hmethod : TextMethod.ofName? key with
    | some m | none =>
      simp only
      nofun

/-- **The key reads the item at the index it is read as.** A list with something at one index only tells
whether that is the index. -/
theorem readsItem_iff : ReadsItem key i ↔ parseIndex key = some i := by
  refine ⟨fun h => ?_, fun h l w => Run.getMember_of_parseIndex h l w⟩
  obtain ⟨w, hitems⟩ : ∃ w : World, w.items ⟨0⟩ = (Array.replicate i .undefined).push .null :=
    ⟨{ World.empty with lists := ⟨#[_]⟩ }, rfl⟩
  have hread : Run.getMember (.list ⟨0⟩) key w = (.done .null, w) := by
    have hread := h ⟨0⟩ w
    rw [hitems, Array.getElem?_push, if_pos (Array.size_replicate ..).symm] at hread
    exact hread
  cases hkey : parseIndex key with
  | none => exact (Run.getMember_of_parseIndex_none hkey _ _ (congrArg Prod.fst hread)).elim
  | some j =>
    rw [Run.getMember_of_parseIndex hkey, hitems, Array.getElem?_push, Array.size_replicate,
      Array.getElem?_replicate] at hread
    split at hread
    · next hend => rw [hend]
    · split at hread <;> cases hread

/-- **The key reads the character at the same index.** -/
theorem readsCharacter_iff : ReadsCharacter key i ↔ parseIndex key = some i := by
  refine ⟨fun h => ?_, fun h s w => Run.getTextMember_of_parseIndex h s w⟩
  -- a text in which the character at the index differs from all others
  obtain ⟨s, hs⟩ : ∃ s : String, s.toList = List.replicate i 'a' ++ ['b'] :=
    ⟨String.ofList _, String.toList_ofList⟩
  have hread : Run.getMember (.text s) key .empty = (.done (.text "b"), .empty) := by
    have hread := h s .empty
    rw [hs, List.getElem?_append_right (Nat.le_of_eq List.length_replicate), List.length_replicate,
      Nat.sub_self] at hread
    exact hread
  cases hkey : parseIndex key with
  | none => exact (Run.getTextMember_of_parseIndex_none hkey _ _ _ (congrArg Prod.fst hread)).elim
  | some j =>
    rw [Run.getTextMember_of_parseIndex hkey, hs] at hread
    rcases Nat.lt_trichotomy j i with hlt | rfl | hgt
    · rw [List.getElem?_append_left (by rwa [List.length_replicate]), List.getElem?_replicate,
        if_pos hlt] at hread
      have htext := Value.text.inj (Outcome.done.inj (Prod.mk.inj hread).1)
      exact absurd (List.singleton_inj.1 (String.ofList_injective htext)) (by decide)
    · rfl
    · have hend : (List.replicate i 'a' ++ ['b']).length ≤ j := by
        rw [List.length_append, List.length_replicate]
        exact hgt
      rw [List.getElem?_eq_none hend] at hread
      cases hread

/-- **The key writes the item at the same index.** -/
theorem writesItem_iff : WritesItem key i ↔ parseIndex key = some i := by
  constructor
  · intro h
    obtain ⟨w, hl⟩ : ∃ w : World, w.lists.get? ⟨0⟩ = some (Array.replicate (i + 1) .undefined) :=
      ⟨{ World.empty with lists := ⟨#[_]⟩ }, rfl⟩
    have hitems : w.items ⟨0⟩ = Array.replicate (i + 1) .undefined := by rw [World.items, hl]; rfl
    have hwrite := h ⟨0⟩ .null w
    rw [hitems, Array.size_replicate, if_neg (by omega)] at hwrite
    -- what is read at the index afterwards is what was written
    have hafter : ∀ w', Run.setMember (.list ⟨0⟩) key .null w = (.done (), w') →
        ((w'.items ⟨0⟩)[i]?).getD .undefined = .null := by
      intro w' hw'
      obtain ⟨-, rfl⟩ := Prod.mk.inj (hwrite.symm.trans hw')
      rw [World.items_changeItems hl, getD_writeItem, if_pos rfl]
    have hbefore : ((w.items ⟨0⟩)[i]?).getD .undefined = .undefined := by
      rw [hitems, Array.getElem?_replicate, if_pos (Nat.lt_succ_self i), Option.getD_some]
    cases hkey : parseIndex key with
    | none =>
      have hnull := hafter w (Run.setMember_of_parseIndex_none hkey ..)
      rw [hbefore] at hnull
      cases hnull
    | some j =>
      have hset := Run.setMember_of_parseIndex hkey ⟨0⟩ .null w
      rw [hitems] at hset
      split at hset
      · cases hset.symm.trans hwrite
      · have hnull := hafter _ hset
        rw [World.items_changeItems hl, getD_writeItem, ← hitems, hbefore] at hnull
        split at hnull
        · next hij => rw [hij]
        · cases hnull
  · exact fun h l v w => Run.setMember_of_parseIndex h l v w

end

/-! ### The laws -/

/-- A world with a list of two items. -/
def World.ofPair : World := { World.empty with lists := ⟨#[#[.null, .boolean true]]⟩ }

namespace Run

variable {l : Ref .list} {v : Value} {w w' : World}

/-- **A write with a key of another index leaves the item as it was.** -/
theorem item_kept {key key' : String} {i : Nat} (hother : parseIndex key ≠ some i)
    (hkey' : parseIndex key' = some i) (h : setMember (.list l) key v w = (.done (), w')) :
    (getMember (.list l) key' w').1 = (getMember (.list l) key' w).1 := by
  cases hkey : parseIndex key with
  | none => rw [← (Prod.mk.inj ((setMember_of_parseIndex_none hkey l v w).symm.trans h)).2]
  | some j =>
    rw [setMember_of_parseIndex hkey] at h
    split at h
    · cases h
    · obtain ⟨-, rfl⟩ := Prod.mk.inj h
      -- the write goes to an index of its own
      have hne : i ≠ j := by
        rintro rfl
        exact hother hkey
      rw [getMember_of_parseIndex hkey', getMember_of_parseIndex hkey']
      cases hl : w.lists.get? l with
      | none => rw [World.items_changeItems_of_none hl]
      | some items =>
        have hitems : w.items l = items := by rw [World.items, hl]; rfl
        rw [World.items_changeItems hl, getD_writeItem, if_neg hne, hitems]

/-- A text of decimal digits is not the name of a member. -/
theorem toString_ne {name : String} (hname : name.toList.head?.any Number.isDigit = false)
    (i : Nat) : toString i ≠ name := by
  rintro rfl
  obtain ⟨hne, hdigits⟩ := Number.toDigits_digits i
  rw [Nat.toString_eq_repr, Nat.toList_repr, List.head?_eq_some_head hne, Option.any_some,
    hdigits _ (List.head_mem hne)] at hname
  cases hname

/-- **What is read at an index.** There is nothing at one that is no word. -/
theorem getMember_toString (l : Ref .list) (i : Nat) (w : World) :
    getMember (.list l) (toString i) w =
      (.done (if i < 2 ^ 64 then ((w.items l)[i]?).getD .undefined else .undefined), w) := by
  have hkey := parseIndex_toString i
  split at hkey
  · next hword => rw [if_pos hword, getMember_of_parseIndex hkey]
  · next hword =>
    -- it is no name of another member either
    have hlength : toString i ≠ "length" := toString_ne (by decide) i
    have hmethod : ListMethod.ofName? (toString i) = none := by
      refine List.find?_eq_none.2 fun m _ => ?_
      cases m <;> simpa [ListMethod.name] using (toString_ne (by decide) i).symm
    change getListMember l (toString i) w = _
    unfold getListMember
    simp only [bind_apply, read_apply, if_neg hlength, hkey, hmethod, pure_apply, if_neg hword]

/-- **Each item has one key, apart from plus signs.** A key is taken for an index exactly if it is the
decimal text of a word, or digits behind a plus sign whose value is a word; lists and texts agree on
that. So of two different keys without a plus sign, a write with the one never changes the item that is
read with the other; and a key without a plus sign that is not the decimal text of a word never changes
a list. -/
theorem items_apart (key : String) :
    (∀ i, ∀ takes ∈ [ReadsItem, ReadsCharacter, WritesItem],
      (takes key i ↔ i < 2 ^ 64 ∧ (key = toString i ∨ SignedIndex key i))) ∧
    (key.toList.head? ≠ some '+' →
      (∀ i, ∀ takes ∈ [ReadsItem, ReadsCharacter, WritesItem],
        (takes key i ↔ i < 2 ^ 64 ∧ key = toString i)) ∧
      ((∀ i < 2 ^ 64, key ≠ toString i) → ∀ l v w, setMember (.list l) key v w = (.done (), w)) ∧
      ∀ key' : String, key'.toList.head? ≠ some '+' → key ≠ key' → ∀ i, ReadsItem key' i →
        ∀ l v w w', setMember (.list l) key v w = (.done (), w') →
          (getMember (.list l) key' w').1 = (getMember (.list l) key' w).1) := by
  have hparse : ∀ i, ∀ takes ∈ [ReadsItem, ReadsCharacter, WritesItem],
      (takes key i ↔ parseIndex key = some i) := by
    intro i takes htakes
    simp only [List.mem_cons, List.not_mem_nil, or_false] at htakes
    rcases htakes with rfl | rfl | rfl
    · exact readsItem_iff
    · exact readsCharacter_iff
    · exact writesItem_iff
  refine ⟨fun i takes h => (hparse i takes h).trans parseIndex_eq_some_iff, fun hkey =>
    ⟨fun i takes h => (hparse i takes h).trans (parseIndex_of_unsigned hkey), fun hno => ?_,
      fun key' hkey' hne i hi l v w w' h => ?_⟩⟩
  · refine setMember_of_parseIndex_none (Option.eq_none_iff_forall_ne_some.2 fun i hi => ?_)
    obtain ⟨hword, hi⟩ := (parseIndex_of_unsigned hkey).1 hi
    exact hno i hword hi
  · have hi := readsItem_iff.1 hi
    refine item_kept (fun hsame => hne ?_) hi h
    exact ((parseIndex_of_unsigned hkey).1 hsame).2.trans
      ((parseIndex_of_unsigned hkey').1 hi).2.symm

/-- `01` is no key of the item at `1`, and a write with `0` leaves that item alone. -/
theorem items_apart_in_pair :
    ¬ ReadsItem "01" 1 ∧ ∃ w', setMember (.list ⟨0⟩) "0" .undefined .ofPair = (.done (), w') ∧
      (getMember (.list ⟨0⟩) "1" w').1 = (getMember (.list ⟨0⟩) "1" .ofPair).1 := by
  obtain ⟨htakes, -⟩ := (items_apart "01").2 (by decide)
  obtain ⟨-, -, hapart⟩ := (items_apart "0").2 (by decide)
  refine ⟨fun h => ?_, _, rfl, ?_⟩
  · have hone := ((htakes 1 ReadsItem (by simp)).1 h).2
    exact absurd hone (by decide)
  · exact hapart "1" (by decide) (by decide) 1 (readsItem_iff.2 (by decide)) ⟨0⟩ .undefined .ofPair _ rfl

/-- **`+1` is another key of the item at `1`:** what is written with it is read with `1`. -/
theorem signed_key_overwrites :
    ReadsItem "+1" 1 ∧ "+1" ≠ toString 1 ∧
    ∃ w', setMember (.list ⟨0⟩) "+1" .undefined .ofPair = (.done (), w') ∧
      (getMember (.list ⟨0⟩) "1" .ofPair).1 = .done (.boolean true) ∧
      (getMember (.list ⟨0⟩) "1" w').1 = .done .undefined :=
  ⟨readsItem_iff.2 (by decide), by decide, _, rfl, rfl, rfl⟩

/-- **A write behind the end of a list and the greatest length is refused** with an error that names
the index, and nothing changes. An index that is no word does not count as one: then nothing changes
and nothing is said. -/
theorem write_out_of_range (l : Ref .list) (v : Value) (w : World) (i : Nat)
    (hi : max (w.items l).size (2 ^ 20) ≤ i) :
    setMember (.list l) (toString i) v w =
      (if i < 2 ^ 64 then .failed (.thrown s!"RangeError: Invalid array index {i}") else .done (),
        w) := by
  have hkey := parseIndex_toString i
  split at hkey
  · next hword => rw [setMember_of_parseIndex hkey, if_pos hi, if_pos hword]
  · next hword => rw [setMember_of_parseIndex_none hkey, if_neg hword]

theorem write_out_of_range_of_pair :
    max (World.ofPair.items ⟨0⟩).size (2 ^ 20) ≤ 4294967294 ∧
    setMember (.list ⟨0⟩) "4294967294" .null .ofPair =
      (.failed (.thrown "RangeError: Invalid array index 4294967294"), .ofPair) :=
  ⟨by decide, write_out_of_range ⟨0⟩ .null .ofPair 4294967294 (by decide)⟩

/-- **A write at the least index that is no word is ignored,** although it is far behind the end. -/
theorem long_index_ignored :
    max (World.ofPair.items ⟨0⟩).size (2 ^ 20) ≤ 2 ^ 64 ∧
    setMember (.list ⟨0⟩) (toString (2 ^ 64)) .null .ofPair = (.done (), .ofPair) :=
  ⟨by decide, setMember_of_parseIndex_none (by decide) ..⟩

/-- **What is written at an index is read there afterwards,** whichever mention of the list it is read
through. The list is as long as it has to be, the other items are what they were, the items of a gap
are undefined, and so is all behind the end. Nothing but the one list has changed. The length of a list
is a word. -/
theorem read_after_write {items : Array Value} (hl : w.lists.get? l = some items)
    (hlength : items.size ≤ 2 ^ 64) {i : Nat} (hi : i < max items.size (2 ^ 20)) (v : Value) :
    ∃ w', setMember (.list l) (toString i) v w = (.done (), w') ∧
      (∀ mention : Value, (Value.list l).strictEquals mention = true →
        getMember mention (toString i) w' = (.done v, w') ∧
        getMember mention "length" w' = (.done (.number (Float.ofNat (max items.size (i + 1)))), w') ∧
        (∀ j < items.size, j ≠ i →
          (getMember mention (toString j) w').1 = (getMember mention (toString j) w).1) ∧
        (∀ j, items.size ≤ j → j < i → getMember mention (toString j) w' = (.done .undefined, w')) ∧
        ∀ j, max items.size (i + 1) ≤ j → getMember mention (toString j) w' = (.done .undefined, w')) ∧
      (w'.items l).size = max items.size (i + 1) ∧
      (∀ l', l' ≠ l → w'.lists.get? l' = w.lists.get? l') ∧
      w' = { w with lists := w'.lists } := by
  have hword : i < 2 ^ 64 := by omega
  have hitems : w.items l = items := by rw [World.items, hl]; rfl
  have hkey : parseIndex (toString i) = some i := by rw [parseIndex_toString, if_pos hword]
  obtain ⟨w', hw'⟩ : ∃ w', w' = w.changeItems l fun items => writeItem items i v := ⟨_, rfl⟩
  have hwrite : setMember (.list l) (toString i) v w = (.done (), w') := by
    rw [setMember_of_parseIndex hkey, hitems, if_neg (Nat.not_le.2 hi), hw']
  have hitems' : w'.items l = writeItem items i v := by rw [hw', World.items_changeItems hl]
  have hsize : (w'.items l).size = max items.size (i + 1) := by rw [hitems', size_writeItem]
  -- at an index that is no word nothing is read, before and afterwards
  have hread : ∀ j, getMember (.list l) (toString j) w' =
      (.done (if j < 2 ^ 64 then (if j = i then v else (items[j]?).getD .undefined) else .undefined),
        w') := fun j => by rw [getMember_toString, hitems', getD_writeItem]
  have hgap : ∀ j, j ≠ i → items.size ≤ j →
      getMember (.list l) (toString j) w' = (.done .undefined, w') := fun j hne hj => by
    rw [hread, if_neg hne, Array.getElem?_eq_none hj, Option.getD_none, ite_self]
  refine ⟨w', hwrite, fun mention hmention => ?_, hsize, fun l' hne => ?_, ?_⟩
  · obtain rfl : mention = .list l := by
      cases mention with
      | list l' => exact congrArg Value.list (beq_iff_eq.1 hmention).symm
      | _ => cases hmention
    refine ⟨?_, ?_, fun j _ hne => ?_, fun j hj hlt => hgap j (by omega) hj,
      fun j hj => hgap j (by omega) (by omega)⟩
    · rw [hread, if_pos hword, if_pos rfl]
    · change getListMember l "length" w' = _
      unfold getListMember
      simp only [bind_apply, read_apply, hsize, if_true, pure_apply]
    · rw [hread, getMember_toString, hitems, if_neg hne]
  · rw [hw', World.changeItems, Table.get?_update, if_neg (Ne.symm hne)]
  · rw [hw']
    rfl

/-- Behind a list of two items a gap of one is filled. -/
theorem read_after_write_of_pair :
    ∃ w', setMember (.list ⟨0⟩) "3" (.text "new") .ofPair = (.done (), w') ∧
      getMember (.list ⟨0⟩) "3" w' = (.done (.text "new"), w') ∧
      getMember (.list ⟨0⟩) "2" w' = (.done .undefined, w') ∧ (w'.items ⟨0⟩).size = 4 := by
  have hpair : World.ofPair.lists.get? ⟨0⟩ = some #[.null, .boolean true] := rfl
  obtain ⟨w', hwrite, hmentions, hsize, -⟩ :=
    read_after_write hpair (by decide) (i := 3) (by decide) (.text "new")
  obtain ⟨hread, -, -, hgap, -⟩ := hmentions (.list ⟨0⟩) rfl
  exact ⟨w', hwrite, hread, hgap 2 (by decide) (by decide), hsize⟩

end Run

end ScriptModules
