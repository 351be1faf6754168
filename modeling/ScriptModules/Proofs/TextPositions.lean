import ScriptModules.Proofs.NumericIndices

/-!
# Positions in texts

The length of a text, its indices and the place that a search yields all count characters
(`Expr.text_positions`).

* A search finds the first place (`Text.position?_eq_some_iff`), and the part that it finds ends within
  the text (`Text.FirstAt.end_le`).
* Searching the UTF-8 bytes would find the same place, behind the bytes of the characters before it
  (`Text.firstAt_bytes`). This rests on one fact about the encoding: the bytes of a character tell where
  it ends (`Text.encoded_head`), and only its first byte can begin a character.
* An index is a whole number, or its decimal digits as a text. No other member of a text is called like
  one, so behind the end there is nothing (`Run.getTextMember_of_inText`).
-/

namespace ScriptModules

namespace Text

/-! ### The first place of a part -/

section

variable {α : Type} {part whole : List α} {i j : Nat}

/-- **The whole goes on with the part from a position, and from none before it.** -/
def FirstAt (part whole : List α) (i : Nat) : Prop :=
  part <+: whole.drop i ∧ ∀ j < i, ¬ part <+: whole.drop j

theorem FirstAt.eq (hi : FirstAt part whole i) (hj : FirstAt part whole j) : i = j := by
  rcases Nat.lt_trichotomy i j with hlt | heq | hgt
  · exact absurd hi.1 (hj.2 i hlt)
  · exact heq
  · exact absurd hj.1 (hi.2 j hgt)

theorem FirstAt.some_eq_iff (h : FirstAt part whole i) : some i = some j ↔ FirstAt part whole j := by
  constructor
  · intro heq
    rwa [Option.some.inj heq] at h
  · intro hj
    rw [h.eq hj]

/-- Where there is a place, there is a first one. -/
theorem exists_firstAt (h : part <+: whole.drop i) : ∃ j ≤ i, FirstAt part whole j := by
  classical
  have hsome : ∃ j, part <+: whole.drop j := ⟨i, h⟩
  exact ⟨Nat.find hsome, Nat.find_min' hsome h, Nat.find_spec hsome, fun j hj => Nat.find_min hsome hj⟩

theorem firstAt_zero : FirstAt part whole 0 ↔ part <+: whole :=
  and_iff_left fun _ hj => absurd hj (Nat.not_lt_zero _)

theorem firstAt_cons_succ {x : α} :
    FirstAt part (x :: whole) (i + 1) ↔ ¬ part <+: x :: whole ∧ FirstAt part whole i := by
  constructor
  · rintro ⟨hstands, hbefore⟩
    exact ⟨hbefore 0 i.succ_pos, hstands, fun j hj => hbefore (j + 1) (Nat.succ_lt_succ hj)⟩
  · rintro ⟨hhead, hstands, hbefore⟩
    refine ⟨hstands, fun j hj => ?_⟩
    cases j with
    | zero => exact hhead
    | succ j => exact hbefore j (Nat.lt_of_succ_lt_succ hj)

/-- **The part ends within the whole,** also an empty one, which stands at the beginning. -/
theorem FirstAt.end_le (h : FirstAt part whole i) : i + part.length ≤ whole.length := by
  have hlength := h.1.length_le
  rw [List.length_drop] at hlength
  rcases Nat.eq_zero_or_pos i with rfl | hpos
  · omega
  · have hne : part ≠ [] := fun hnil => h.2 0 hpos (hnil ▸ List.nil_prefix)
    have hpart : 0 < part.length := List.length_pos_iff.2 hne
    omega

/-- From the place on the whole has the items of the part. -/
theorem FirstAt.getElem? (h : FirstAt part whole i) (hj : j < part.length) :
    whole[i + j]? = some part[j] := by
  rw [← List.getElem?_drop]
  exact List.prefix_iff_getElem?.1 h.1 j hj

end

section

variable {needle s : List Char} {i : Nat}

/-- **The search finds the first place.** -/
theorem position?_eq_some_iff : position? needle s = some i ↔ FirstAt needle s i := by
  induction s generalizing i with
  | nil =>
    cases needle with
    | nil =>
      show some 0 = some i ↔ _
      exact (firstAt_zero.2 List.nil_prefix).some_eq_iff
    | cons c needle =>
      refine ⟨nofun, fun h => ?_⟩
      -- nothing but nothing stands in an empty text
      have hend := h.end_le
      rw [List.length_cons, List.length_nil] at hend
      omega
  | cons c s ih =>
    unfold position?
    split
    · next hhead =>
      exact (firstAt_zero.2 (List.isPrefixOf_iff_prefix.1 hhead)).some_eq_iff
    · next hhead =>
      have hhead : ¬ needle <+: c :: s := fun h => hhead (List.isPrefixOf_iff_prefix.2 h)
      cases i with
      | zero =>
        refine ⟨fun h => ?_, fun h => absurd (firstAt_zero.1 h) hhead⟩
        obtain ⟨j, -, hj⟩ := Option.map_eq_some_iff.1 h
        exact absurd hj j.succ_ne_zero
      | succ i =>
        rw [firstAt_cons_succ, and_iff_right hhead, ← ih, Option.map_eq_some_iff]
        constructor
        · rintro ⟨j, hj, hsucc⟩
          rw [hj, Nat.succ_inj.1 hsucc]
        · exact fun h => ⟨i, h, rfl⟩

/-- It finds none where there is none. -/
theorem position?_eq_none_iff : position? needle s = none ↔ ∀ i, ¬ needle <+: s.drop i := by
  constructor
  · intro h i hi
    obtain ⟨j, -, hj⟩ := exists_firstAt hi
    exact absurd (h.symm.trans (position?_eq_some_iff.2 hj)) nofun
  · intro h
    cases hp : position? needle s with
    | none => rfl
    | some i => exact absurd (position?_eq_some_iff.1 hp).1 (h i)

end

/-! ### Bytes -/

section

variable {s n : List Char} {c d : Char} {i j k : Nat}

/-- The UTF-8 bytes of a text. -/
def bytes (s : List Char) : List UInt8 := s.flatMap String.utf8EncodeChar

/-- The number of bytes before a character of a text. -/
def byteOffset (s : List Char) (i : Nat) : Nat := (bytes (s.take i)).length

theorem bytes_append (s t : List Char) : bytes (s ++ t) = bytes s ++ bytes t := List.flatMap_append

theorem bytes_cons (c : Char) (s : List Char) : bytes (c :: s) = String.utf8EncodeChar c ++ bytes s :=
  List.flatMap_cons

/-- The bytes are those of the string. -/
theorem bytes_toList (s : String) : (bytes s.toList).toByteArray = s.toByteArray := by
  conv_rhs => rw [← s.ofList_toList, String.toByteArray_ofList]
  rfl

/-- **Bytes tell where a character ends:** texts that begin with the bytes of two characters begin with
the same one. -/
theorem encoded_head {x y : List UInt8}
    (h : String.utf8EncodeChar c ++ x = String.utf8EncodeChar d ++ y) : c = d ∧ x = y := by
  have hdecoded : ∀ (c : Char) (x : List UInt8),
      (String.utf8EncodeChar c ++ x).toByteArray.utf8DecodeChar? 0 = some c := by
    intro c x
    rw [List.toByteArray_append]
    exact ByteArray.utf8DecodeChar?_utf8EncodeChar_append
  obtain rfl : c = d := Option.some.inj (by rw [← hdecoded c x, h, hdecoded])
  exact ⟨rfl, List.append_cancel_left h⟩

/-- One text begins with another if its bytes do. -/
theorem bytes_prefix_iff : bytes n <+: bytes s ↔ n <+: s := by
  constructor
  · intro h
    induction n generalizing s with
    | nil => exact List.nil_prefix
    | cons c n ih =>
      rw [bytes_cons] at h
      cases s with
      | nil =>
        obtain ⟨hc, -⟩ := List.append_eq_nil_iff.1 (List.prefix_nil.1 h)
        exact absurd hc String.utf8EncodeChar_ne_nil
      | cons d s =>
        obtain ⟨t, ht⟩ := h
        rw [bytes_cons, List.append_assoc] at ht
        obtain ⟨rfl, hrest⟩ := encoded_head ht
        exact (List.prefix_cons_inj c).2 (ih ⟨t, hrest⟩)
  · rintro ⟨t, rfl⟩
    rw [bytes_append]
    exact List.prefix_append ..

/-- A byte that begins a character stands where a character stands. -/
theorem exists_offset_of_first {b : UInt8} (hb : (bytes s)[k]? = some b) (hfirst : b.IsUTF8FirstByte) :
    ∃ i, k = byteOffset s i := by
  induction s generalizing k with
  | nil => exact absurd hb nofun
  | cons c s ih =>
    rw [bytes_cons] at hb
    rcases Nat.lt_or_ge k (String.utf8EncodeChar c).length with hlt | hge
    · -- of the bytes of one character only the one at its head begins a character
      rw [List.getElem?_append_left hlt, List.getElem?_eq_getElem hlt] at hb
      obtain rfl := Option.some.inj hb
      exact ⟨0, UInt8.isUTF8FirstByte_getElem_utf8EncodeChar.1 hfirst⟩
    · rw [List.getElem?_append_right hge] at hb
      obtain ⟨i, hi⟩ := ih hb
      refine ⟨i + 1, ?_⟩
      rw [byteOffset, List.take_succ_cons, bytes_cons, List.length_append, ← byteOffset, ← hi]
      omega

theorem bytes_drop (s : List Char) (i : Nat) : (bytes s).drop (byteOffset s i) = bytes (s.drop i) := by
  have hsplit : bytes s = bytes (s.take i) ++ bytes (s.drop i) := by
    rw [← bytes_append, List.take_append_drop]
  rw [hsplit]
  exact List.drop_left

theorem byteOffset_mono (s : List Char) (h : i ≤ j) : byteOffset s i ≤ byteOffset s j :=
  (bytes_prefix_iff.2 (List.take_prefix_take_left h)).length_le

/-- The bytes of a text with a character stand nowhere but at a character. -/
theorem exists_offset (hn : n ≠ []) (h : bytes n <+: (bytes s).drop k) :
    ∃ i, k = byteOffset s i ∧ n <+: s.drop i := by
  obtain ⟨c, n, rfl⟩ := List.exists_cons_of_ne_nil hn
  have hpos : 0 < (String.utf8EncodeChar c).length := List.length_pos_iff.2 String.utf8EncodeChar_ne_nil
  have hbyte : (bytes s)[k]? = some (String.utf8EncodeChar c)[0] := by
    rw [bytes_cons] at h
    have hhead := List.prefix_iff_getElem?.1 ((List.prefix_append _ _).trans h) 0 hpos
    rwa [List.getElem?_drop] at hhead
  -- the first byte of the text begins a character, so it stands where one stands
  obtain ⟨i, rfl⟩ := exists_offset_of_first hbyte (UInt8.isUTF8FirstByte_getElem_utf8EncodeChar.2 rfl)
  rw [bytes_drop, bytes_prefix_iff] at h
  exact ⟨i, rfl, h⟩

/-- **Searching the bytes finds the same place** as searching the characters. -/
theorem firstAt_bytes (h : FirstAt n s i) : FirstAt (bytes n) (bytes s) (byteOffset s i) := by
  refine ⟨by rw [bytes_drop, bytes_prefix_iff]; exact h.1, fun k hk hstands => ?_⟩
  by_cases hn : n = []
  · -- an empty text stands at the beginning
    subst hn
    obtain rfl := h.eq (firstAt_zero.2 List.nil_prefix)
    exact absurd hk (Nat.not_lt_zero _)
  · -- were it before, it would stand before among the characters, too
    obtain ⟨j, rfl, hj⟩ := exists_offset hn hstands
    obtain ⟨j', hle, hfirst⟩ := exists_firstAt hj
    rw [h.eq hfirst] at hk
    exact absurd (byteOffset_mono s hle) (Nat.not_le_of_lt hk)

/-- and none if there is none. -/
theorem not_bytes_prefix (h : ∀ i, ¬ n <+: s.drop i) (k : Nat) : ¬ bytes n <+: (bytes s).drop k := by
  intro hstands
  have hn : n ≠ [] := fun hnil => h 0 (hnil ▸ List.nil_prefix)
  obtain ⟨i, -, hi⟩ := exists_offset hn hstands
  exact h i hi

end

end Text

/-! ### Reading the characters of a text -/

/-- A text is asked for its length. -/
def Expr.lengthOf (s : String) : Expr := .member (.literal (.text s)) "length"

/-- A text is asked for its character at an index. -/
def Expr.characterAt (s : String) (l : Literal) : Expr := .index (.literal (.text s)) (.literal l)

/-- A text is searched for another. -/
def Expr.searchFor (s n : String) : Expr :=
  .call (.member (.literal (.text s)) "indexOf") [.literal (.text n)]

/-- A literal that is an index: a number, or its decimal digits as a text. -/
inductive Literal.Indexes : Literal → Nat → Prop where
  | number {x : Float} {i : Nat} : Number.IsIndex x i → Indexes (.number x) i
  | text (i : Nat) : Indexes (.text (toString i)) i

section

variable {l : Literal} {i : Nat}

/-- **The key of an index** is written like a number, and is read as the index if 64 bits hold it. -/
theorem Literal.Indexes.key (h : l.Indexes i) (w : World) :
    ∃ key, (Run.textOf l.value : Script String) w = (.done key, w) ∧
      (∀ c ∈ key.toList, Number.inText c = true) ∧
      parseIndex key = if i < 2 ^ 64 then some i else none := by
  cases h with
  | @number x _ hx => exact ⟨Number.text x, rfl, Number.inText_text x, hx.parseIndex_text⟩
  | text i =>
    refine ⟨toString i, rfl, fun c hc => ?_, parseIndex_toString i⟩
    rw [Nat.toString_eq_repr, Nat.toList_repr] at hc
    exact Number.inText_toDigits hc

/-- No member of a text is called like a number. -/
theorem Run.getTextMember_of_inText {key : String} (hkey : ∀ c ∈ key.toList, Number.inText c = true)
    (hnone : parseIndex key = none) (s : String) (w : World) :
    Run.getMember (.text s) key w = (.done .undefined, w) := by
  have hlength : key ≠ "length" := by
    rintro rfl
    exact absurd (hkey 'l' (by decide)) (by decide)
  have hmethod : TextMethod.ofName? key = none := by
    -- the name of each method has a letter that numbers are not written with
    have hname : ∀ m : TextMethod, ∃ c ∈ m.name.toList, Number.inText c = false := by
      intro m
      cases m with
      | toUpperCase | toLowerCase | indexOf => exact ⟨'e', by decide, by decide⟩
      | trim => exact ⟨'r', by decide, by decide⟩
    refine List.find?_eq_none.2 fun m _ h => ?_
    obtain ⟨c, hc, hnot⟩ := hname m
    rw [of_decide_eq_true h] at hc
    rw [hkey c hc] at hnot
    cases hnot
  change Run.getTextMember s key w = _
  unfold Run.getTextMember
  simp only [if_neg hlength, hnone, hmethod]
  rfl

/-- **Reading a text at an index** gives the character there, undefined if there is none. -/
theorem Expr.eval_characterAt (h : l.Indexes i) (call : CallSemantics) (sc : Ref .scope) (s : String)
    (w : World) : (characterAt s l).eval call sc w =
      (.done (if i < 2 ^ 64 then
        ((s.toList[i]?).map fun c => Value.text (String.singleton c)).getD .undefined
      else .undefined), w) := by
  obtain ⟨key, htext, hkey, hparse⟩ := h.key w
  have hread : (characterAt s l).eval call sc w = Run.getMember (.text s) key w :=
    Run.bind_of_done htext
  rw [hread]
  split at hparse
  · next hword =>
    rw [Run.getTextMember_of_parseIndex hparse, if_pos hword]
    rfl
  · next hword => rw [Run.getTextMember_of_inText hkey hparse, if_neg hword]

/-- **The search for a text in a text** yields the place that is found, and minus one if there is none. -/
theorem Expr.eval_searchFor (m : Machine) (sc : Ref .scope) (s n : String) (w : World) :
    ∃ w', (searchFor s n).eval m.invoke sc w = (.done (.number (textIndexOf s n)), w') := by
  -- reading the member makes a function, and the call finds it
  obtain ⟨f, w₁, hmade, hf⟩ : ∃ f w₁, (Run.newFunction (.textMethod .indexOf s) : Script _) w =
      (.done f, w₁) ∧ w₁.functions.get? f = some (.textMethod .indexOf s) :=
    ⟨_, _, rfl, Table.get?_add_fresh ..⟩
  have hmember : Run.getMember (.text s) "indexOf" w = (.done (.function f), w₁) := by
    have hparse : parseIndex "indexOf" = none := by decide
    change Run.getTextMember s "indexOf" w = _
    unfold Run.getTextMember
    rw [hparse]
    exact Run.bind_of_done hmade
  have hcall : m.invoke f (.text s) #[.text n] w₁ = (.done (.number (textIndexOf s n)),
      (w₁.mark (.call (.entered false))).mark (.call .left)) := by
    unfold Machine.invoke
    rw [Run.bind_of_done (Run.read_apply _ _), hf]
    rfl
  -- its two operands are literals
  have hrun : (searchFor s n).eval m.invoke sc w = (Run.getMember (.text s) "indexOf" >>= fun f =>
      callValue m.invoke f (Expr.member (.literal (.text s)) "indexOf").describe (.text s)
        #[.text n]) w := rfl
  have hnoticed : Run.noticing (m.invoke f (.text s) #[.text n]) w₁ =
      m.invoke f (.text s) #[.text n] w₁ := by
    unfold Run.noticing Run.onFailure
    rw [hcall]
  exact ⟨_, (hrun.trans (Run.bind_of_done hmember)).trans (hnoticed.trans hcall)⟩

end

/-! ### The laws of positions -/

/-- **Search, length and index of a text count characters.** The search of a text for another yields
minus one if the other stands nowhere in it, neither among its characters nor among its bytes. Otherwise
it yields the first place, a number of characters: the bytes of the other stand first behind as many
characters, it ends within the text, and its characters are read at the indices from there on. An index
has a character exactly before the end of the text. No index is greater than 64 bits hold, nor is any
text that long. -/
theorem Expr.text_positions (m : Machine) (sc : Ref .scope) (s n : String) (w : World) :
    (∃ x w', (searchFor s n).eval m.invoke sc w = (.done (.number x), w') ∧
      ((x = -1.0 ∧ (∀ i, ¬ n.toList <+: s.toList.drop i) ∧
          ∀ k, ¬ Text.bytes n.toList <+: (Text.bytes s.toList).drop k) ∨
        ∃ i, x = Float.ofNat i ∧ x ≠ -1.0 ∧ Text.FirstAt n.toList s.toList i ∧
          Text.FirstAt (Text.bytes n.toList) (Text.bytes s.toList) (Text.byteOffset s.toList i) ∧
          i + n.length ≤ s.length ∧
          ∀ (j : Nat) (hj : j < n.toList.length) (l : Literal), l.Indexes (i + j) → i + j < 2 ^ 64 →
            (characterAt s l).eval m.invoke sc w' =
              (.done (.text (String.singleton n.toList[j])), w'))) ∧
    (∀ t, (lengthOf t).eval m.invoke sc w = (.done (.number (Float.ofNat t.length)), w)) ∧
    ∀ l i, l.Indexes i →
      ((characterAt s l).eval m.invoke sc w = (.done .undefined, w) ↔ s.length ≤ i ∨ 2 ^ 64 ≤ i) := by
  obtain ⟨w', hrun⟩ := eval_searchFor m sc s n w
  refine ⟨⟨_, w', hrun, ?_⟩, fun t => rfl, fun l i hl => ?_⟩
  · cases hp : Text.position? n.toList s.toList with
    | none =>
      have hnone := Text.position?_eq_none_iff.1 hp
      exact .inl ⟨by rw [textIndexOf, hp], hnone, Text.not_bytes_prefix hnone⟩
    | some i =>
      have hfirst := Text.position?_eq_some_iff.1 hp
      have hx : textIndexOf s n = Float.ofNat i := by rw [textIndexOf, hp]
      -- the first place among the bytes is the place of the first character
      refine .inr ⟨i, hx, hx ▸ Number.ofNat_ne_neg_one i, hfirst, Text.firstAt_bytes hfirst, ?_, ?_⟩
      · rw [← String.length_toList, ← String.length_toList]
        exact hfirst.end_le
      · intro j hj l hl hword
        rw [eval_characterAt hl, if_pos hword, hfirst.getElem? hj]
        rfl
  · rw [eval_characterAt hl, ← String.length_toList]
    split
    · next hword =>
      cases hc : s.toList[i]? with
      | none =>
        have hend := List.getElem?_eq_none_iff.1 hc
        exact ⟨fun _ => .inl hend, fun _ => rfl⟩
      | some c =>
        have hlt := (List.getElem?_eq_some_iff.1 hc).1
        refine ⟨nofun, fun h => ?_⟩
        omega
    · next hword => exact ⟨fun _ => .inr (Nat.le_of_not_lt hword), fun _ => rfl⟩

/-- A character of four bytes behind one of two: it stands at index 2, behind three bytes, and is read
there; the text has four characters. -/
theorem Expr.text_positions_of_wide :
    ∃ w', (searchFor "aé😀b" "😀").eval (Machine.ofFuel 0).invoke ⟨0⟩ .empty =
        (.done (.number (Float.ofNat 2)), w') ∧
      Text.FirstAt (Text.bytes "😀".toList) (Text.bytes "aé😀b".toList) 3 ∧
      (characterAt "aé😀b" (.number (Float.ofNat 2))).eval (Machine.ofFuel 0).invoke ⟨0⟩ w' =
        (.done (.text "😀"), w') ∧
      (characterAt "aé😀b" (.text "4")).eval (Machine.ofFuel 0).invoke ⟨0⟩ .empty =
        (.done .undefined, .empty) := by
  have hfirst : Text.FirstAt "😀".toList "aé😀b".toList 2 := Text.position?_eq_some_iff.1 (by decide)
  obtain ⟨⟨x, w', hrun, hplace⟩, -, hends⟩ :=
    Expr.text_positions (.ofFuel 0) ⟨0⟩ "aé😀b" "😀" .empty
  have hend := (hends (.text "4") 4 (.text 4)).2 (.inl (by decide))
  obtain ⟨-, hnone, -⟩ | ⟨i, hx, -, hi, hbytes, -, hread⟩ := hplace
  · exact absurd hfirst.1 (hnone 2)
  · obtain rfl := hi.eq hfirst
    have hoffset : Text.byteOffset "aé😀b".toList 2 = 3 := by decide
    rw [hoffset] at hbytes
    exact ⟨w', hx ▸ hrun, hbytes,
      hread 0 (by decide) _ (.number (Number.isIndex_ofNat (by decide))) (by decide), hend⟩

end ScriptModules
