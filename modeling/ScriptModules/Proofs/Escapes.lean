import Mathlib.Data.Nat.Digits.Lemmas
import ScriptModules.Proofs.RoundTrip

/-!
# What string literals stand for

The characters between the quotes of a literal are read as pieces, from the left: a character that
stands for itself, a backslash with a letter, a backslash and `u` with the number of a character. The
text is the characters that the pieces stand for (`StandsFor`), and there is none if some `u` behind a
backslash is not followed by such a number (`Faulty`). A number is written by four digits of base 16,
and also by three digits behind a plus sign; that is all that decoding knows of numbers
(`Escape.literal_decoded`).

Every literal stands for a text or is faulty (`standsFor_or_faulty`), so it is enough to follow what
decoding does in these two cases. And every text that is escaped is read back from a literal with
quotes of either kind.
-/

namespace ScriptModules.Escape

open Grammar Grammar.RuleSet

/-! ### Numbers -/

/-- A digit of base 16, small or capital, and its value. -/
def HexDigit (c : Char) (v : Nat) : Prop :=
  v < 16 ∧ (c = Nat.digitChar v ∨ c = (Nat.digitChar v).toUpper)

/-- Digits of base 16 and the number that they write. -/
def HexDigits (ds : List Char) (n : Nat) : Prop :=
  ∃ vs, List.Forall₂ HexDigit ds vs ∧ n = Nat.ofDigits 16 vs.reverse

/-- Four digits. -/
def FourDigits (ds : List Char) (n : Nat) : Prop := ds.length = 4 ∧ HexDigits ds n

/-- A plus sign and three digits. -/
def SignedDigits (ds : List Char) (n : Nat) : Prop :=
  ∃ ds', ds = '+' :: ds' ∧ ds'.length = 3 ∧ HexDigits ds' n

/-- What is decoded as a number. -/
def Numeral (ds : List Char) (n : Nat) : Prop := FourDigits ds n ∨ SignedDigits ds n

/-- Numbers that no character has. -/
def Surrogate (n : Nat) : Prop := 0xD800 ≤ n ∧ n ≤ 0xDFFF

/-! ### Pieces -/

/-- The letters that stand for other characters behind a backslash. -/
def shorthands : List (Char × Char) :=
  [('n', '\n'), ('t', '\t'), ('r', '\r'), ('b', '\x08'), ('f', '\x0c'), ('v', '\x0b'), ('0', '\x00')]

section

variable (N : List Char → Nat → Prop)

/-- **A piece and the character that it stands for;** `N` says how numbers are written. -/
inductive Piece : List Char → Char → Prop where
  | plain {x} : x ≠ '\\' → Piece [x] x
  | shorthand {x y} : (x, y) ∈ shorthands → Piece ['\\', x] y
  | itself {x} : x ≠ 'u' → x ∉ shorthands.map Prod.fst → Piece ['\\', x] x
  | number {ds} {x : Char} : N ds x.toNat → Piece ('\\' :: 'u' :: ds) x

/-- **Characters and the text that they stand for,** piece by piece. -/
inductive StandsFor : List Char → List Char → Prop where
  | nil : StandsFor [] []
  | cons {p x raw s} : Piece N p x → StandsFor raw s → StandsFor (p ++ raw) (x :: s)

/-- **Behind some pieces a `u` behind a backslash is not followed by a number,** or by that of no
character. -/
def Faulty (raw : List Char) : Prop :=
  ∃ before after s, raw = before ++ '\\' :: 'u' :: after ∧ StandsFor N before s ∧
    ((¬ ∃ ds rest n, after = ds ++ rest ∧ N ds n) ∨
      ∃ ds rest n, after = ds ++ rest ∧ N ds n ∧ Surrogate n)

/-- **Characters are decoded to what they stand for,** and to nothing if they are faulty. -/
def DecodedBy (raw : List Char) : Prop :=
  (∀ s, decode raw = some s ↔ StandsFor N raw s) ∧ (decode raw = none ↔ Faulty N raw)

end

/-- **A `u` behind a backslash is followed by a plus sign,** when the pieces are read up to it. -/
def Signed (raw : List Char) : Prop :=
  ∃ before rest s, raw = before ++ '\\' :: 'u' :: '+' :: rest ∧ StandsFor FourDigits before s

/-! ### Reading numbers -/

theorem hexValue?_eq_some_iff {c : Char} {v : Nat} : hexValue? c = some v ↔ HexDigit c v := by
  constructor
  · intro h
    -- a digit is one of the first characters, and these can be gone through
    have hall : ∀ n < 128, ∀ v ∈ hexValue? (Char.ofNat n), v < 16 ∧
        (Char.ofNat n = Nat.digitChar v ∨ Char.ofNat n = (Nat.digitChar v).toUpper) := by
      decide +kernel
    have hsmall : c.toNat < 128 := by
      by_contra hc
      have hbig : ∀ d : Char, d.toNat < 128 → ¬ c ≤ d := fun d hd hle =>
        hc (Nat.lt_of_le_of_lt hle hd)
      rw [hexValue?, if_neg fun h => hbig '9' (by decide) h.2, if_neg fun h => hbig 'f' (by decide) h.2,
        if_neg fun h => hbig 'F' (by decide) h.2] at h
      cases h
    rw [← Char.ofNat_toNat c] at h ⊢
    exact hall _ hsmall v h
  · rintro ⟨hv, hc⟩
    have hall : ∀ v < 16, hexValue? (Nat.digitChar v) = some v ∧
        hexValue? (Nat.digitChar v).toUpper = some v := by decide
    rcases hc with rfl | rfl
    · exact (hall v hv).1
    · exact (hall v hv).2

/-- Digits go on with a number that was read before. -/
theorem foldlM_eq_some_iff {ds : List Char} {m n : Nat} :
    ds.foldlM (fun n c => (hexValue? c).map (16 * n + ·)) m = some n ↔
      ∃ vs, List.Forall₂ HexDigit ds vs ∧ n = 16 ^ ds.length * m + Nat.ofDigits 16 vs.reverse := by
  induction ds generalizing m with
  | nil => simp [eq_comm]
  | cons c ds ih =>
    -- what was read before moves one place to the left
    have hstep : ∀ {v vs}, List.Forall₂ HexDigit ds vs →
        16 ^ (c :: ds).length * m + Nat.ofDigits 16 (v :: vs).reverse =
          16 ^ ds.length * (16 * m + v) + Nat.ofDigits 16 vs.reverse := by
      intro v vs h
      rw [List.reverse_cons, Nat.ofDigits_append, Nat.ofDigits_singleton, List.length_reverse,
        ← h.length_eq, List.length_cons]
      ring
    simp only [List.foldlM_cons, Option.bind_eq_bind, Option.bind_eq_some_iff, Option.map_eq_some_iff]
    constructor
    · rintro ⟨_, ⟨v, hv, rfl⟩, h⟩
      obtain ⟨vs, hvs, rfl⟩ := ih.1 h
      exact ⟨v :: vs, .cons (hexValue?_eq_some_iff.1 hv) hvs, (hstep hvs).symm⟩
    · rintro ⟨_, _ | ⟨hv, hvs⟩, rfl⟩
      exact ⟨_, ⟨_, hexValue?_eq_some_iff.2 hv, rfl⟩, ih.2 ⟨_, hvs, hstep hvs⟩⟩

theorem hexValueOf?_eq_some_iff {ds : List Char} {n : Nat} :
    hexValueOf? ds = some n ↔ HexDigits ds n := by
  rw [hexValueOf?, foldlM_eq_some_iff]
  simp [HexDigits]

/-- No other characters are digits. -/
theorem HexDigits.not_mem {ds : List Char} {n : Nat} {c : Char} (h : HexDigits ds n)
    (hc : hexValue? c = none) : c ∉ ds := by
  obtain ⟨vs, hvs, rfl⟩ := h
  induction hvs with
  | nil => exact List.not_mem_nil
  | cons hv _ ih =>
    refine List.not_mem_cons_of_ne_of_not_mem ?_ ih
    rintro rfl
    rw [hexValue?_eq_some_iff.2 hv] at hc
    cases hc

/-- **What is decoded as a number.** -/
theorem number?_eq_some_iff {a b c d : Char} {n : Nat} :
    number? a b c d = some n ↔ Numeral [a, b, c, d] n := by
  unfold number?
  -- a plus sign is no digit, so only one of the two forms can be meant
  split
  · next ha =>
    subst ha
    rw [hexValueOf?_eq_some_iff]
    constructor
    · exact fun h => .inr ⟨_, rfl, rfl, h⟩
    · rintro (⟨-, h⟩ | ⟨_, ⟨⟩, -, h⟩)
      · exact absurd (List.mem_cons_self ..) (h.not_mem (by decide))
      · exact h
  · next ha =>
    rw [hexValueOf?_eq_some_iff]
    constructor
    · exact fun h => .inl ⟨rfl, h⟩
    · rintro (⟨-, h⟩ | ⟨_, ⟨⟩, -, -⟩)
      · exact h
      · exact absurd rfl ha

/-- A number has as many places as there are digits. -/
theorem HexDigits.lt {ds : List Char} {n : Nat} (h : HexDigits ds n) : n < 16 ^ ds.length := by
  obtain ⟨vs, hvs, rfl⟩ := h
  have hsmall : ∀ v ∈ vs, v < 16 := by
    induction hvs with
    | nil => simp
    | cons hv _ ih => exact List.forall_mem_cons.2 ⟨hv.1, ih⟩
  rw [hvs.length_eq, ← List.length_reverse]
  exact Nat.ofDigits_lt_base_pow_length (by decide) fun v hv => hsmall v (List.mem_reverse.1 hv)

namespace Numeral

variable {ds : List Char} {n : Nat}

theorem length_eq (h : Numeral ds n) : ds.length = 4 := by
  rcases h with ⟨h, -⟩ | ⟨_, rfl, h, -⟩
  · exact h
  · rw [List.length_cons, h]

theorem lt (h : Numeral ds n) : n < 0x10000 := by
  rcases h with ⟨h, hn⟩ | ⟨_, rfl, h, hn⟩
  · have := hn.lt
    rwa [h] at this
  · have := hn.lt
    rw [h] at this
    omega

theorem no_backslash (h : Numeral ds n) : '\\' ∉ ds := by
  rcases h with ⟨-, h⟩ | ⟨_, rfl, -, h⟩
  · exact h.not_mem (by decide)
  · exact List.not_mem_cons_of_ne_of_not_mem (by decide) (h.not_mem (by decide))

/-- A numeral has four characters. -/
theorem exists_four (h : Numeral ds n) :
    ∃ a b c d, ds = [a, b, c, d] ∧ number? a b c d = some n := by
  match ds, h.length_eq with
  | [a, b, c, d], _ => exact ⟨a, b, c, d, rfl, number?_eq_some_iff.2 h⟩

end Numeral

/-- A number that is no surrogate is that of a character. -/
theorem char?_eq_some_iff {n : Nat} {x : Char} (hn : n < 0x10000) :
    char? n = some x ↔ x.toNat = n := by
  unfold char?
  split
  · next hsurrogate =>
    refine ⟨nofun, ?_⟩
    rintro rfl
    have hvalid : x.toNat.isValidChar := x.valid
    unfold Nat.isValidChar at hvalid
    omega
  · next hno =>
    have hvalid : n.isValidChar := by
      unfold Nat.isValidChar
      omega
    have htoNat : (Char.ofNat n).toNat = n := by
      rw [Char.ofNat, dif_pos hvalid]
      rfl
    rw [Option.some_inj, ← Char.toNat_inj, htoNat, eq_comm]

theorem char?_eq_none_iff {n : Nat} : char? n = none ↔ Surrogate n := by
  unfold char? Surrogate
  split <;> simp [*]

/-! ### Reading pieces -/

theorem simple_of_shorthand : ∀ r ∈ shorthands, r.1 ≠ 'u' ∧ simple r.1 = r.2 := by decide

theorem simple_of_not_mem {x : Char} (hx : x ∉ shorthands.map Prod.fst) : simple x = x := by
  simp only [shorthands, List.map_cons, List.map_nil, List.mem_cons, List.not_mem_nil, or_false,
    not_or] at hx
  simp [simple, hx]

section

variable {N : List Char → Nat → Prop} {x : Char} {p raw before s : List Char}

/-- Behind a backslash, every character but `u` has a meaning. -/
theorem Piece.ofEscaped (hx : x ≠ 'u') : Piece N ['\\', x] (simple x) := by
  by_cases hmem : x ∈ shorthands.map Prod.fst
  · obtain ⟨r, hr, rfl⟩ := List.mem_map.1 hmem
    rw [(simple_of_shorthand r hr).2]
    exact .shorthand hr
  · rw [simple_of_not_mem hmem]
    exact .itself hx hmem

theorem decode_plain (hx : x ≠ '\\') (rest : List Char) :
    decode (x :: rest) = (decode rest).map (x :: ·) :=
  decode.eq_6 x rest (fun _ _ _ _ _ h _ => hx h) (fun _ h _ => hx h) (fun _ _ h _ => hx h)
    (fun h _ => hx h)

theorem decode_escaped (hx : x ≠ 'u') (rest : List Char) :
    decode ('\\' :: x :: rest) = (decode rest).map (simple x :: ·) :=
  decode.eq_4 x rest (fun _ _ _ _ _ h _ => hx h) hx

/-- **A piece is decoded first,** and then what stands behind it. -/
theorem Piece.decode_append (h : Piece Numeral p x) (rest : List Char) :
    decode (p ++ rest) = (decode rest).map (x :: ·) := by
  cases h with
  | plain hx => exact decode_plain hx rest
  | @shorthand y _ hmem =>
    obtain ⟨hu, hsimple⟩ := simple_of_shorthand _ hmem
    have h := decode_escaped hu rest
    rwa [hsimple] at h
  | @itself y hu hmem =>
    have h := decode_escaped hu rest
    rwa [simple_of_not_mem hmem] at h
  | number hn =>
    obtain ⟨a, b, c, d, rfl, h⟩ := hn.exists_four
    have hx : char? x.toNat = some x := (char?_eq_some_iff hn.lt).2 rfl
    have hread : decode ('\\' :: 'u' :: a :: b :: c :: d :: rest) = (decode rest).map (x :: ·) := by
      rw [decode, h]
      simp [hx, Option.map_eq_bind]
    exact hread

theorem StandsFor.decode_append (h : StandsFor Numeral before s) (rest : List Char) :
    decode (before ++ rest) = (decode rest).map (s ++ ·) := by
  induction h with
  | nil => simp
  | cons hp _ ih =>
    rw [List.append_assoc, hp.decode_append, ih, Option.map_map]
    rfl

/-- **What characters stand for is decoded.** -/
theorem StandsFor.decode_eq (h : StandsFor Numeral raw s) : decode raw = some s := by
  have := h.decode_append []
  simpa [decode] using this

/-- **Nothing is decoded from faulty characters.** -/
theorem Faulty.decode_eq (h : Faulty Numeral raw) : decode raw = none := by
  obtain ⟨before, after, s, rfl, hbefore, hfault⟩ := h
  suffices hafter : decode ('\\' :: 'u' :: after) = none by
    rw [hbefore.decode_append, hafter, Option.map_none]
  match after with
  -- where fewer than four characters follow, no number is looked for
  | a :: b :: c :: d :: rest =>
    rw [decode]
    rcases hfault with hno | ⟨ds, rest', n, hds, hn, hsurrogate⟩
    · cases hnumber : number? a b c d with
      | none => rfl
      | some n =>
        exact absurd ⟨[a, b, c, d], rest, n, rfl, number?_eq_some_iff.1 hnumber⟩ hno
    · obtain ⟨a', b', c', d', rfl, hnumber⟩ := hn.exists_four
      obtain ⟨rfl, rfl, rfl, rfl, rfl⟩ : a = a' ∧ b = b' ∧ c = c' ∧ d = d' ∧ rest = rest' := by
        simpa using hds
      rw [hnumber]
      simp [char?_eq_none_iff.2 hsurrogate]
  | [] | [_] | [_, _] | [_, _, _] => rfl

/-- A fault stays one behind a piece. -/
theorem Faulty.cons (hp : Piece N p x) (h : Faulty N raw) : Faulty N (p ++ raw) := by
  obtain ⟨before, after, s, rfl, hbefore, hfault⟩ := h
  exact ⟨p ++ before, after, x :: s, (List.append_assoc ..).symm, .cons hp hbefore, hfault⟩

theorem Piece.length_pos (h : Piece N p x) : 0 < p.length := by
  cases h <;> simp

/-- Behind characters that are no backslash there are characters of a literal again. -/
theorem quoted_of_append {q : Char} {ds : List Char} (h : Quoted q (ds ++ raw))
    (hds : '\\' ∉ ds) : Quoted q raw := by
  induction ds with
  | nil => exact h
  | cons d ds ih =>
    obtain ⟨hd, hds⟩ := List.ne_and_not_mem_of_not_mem_cons hds
    suffices htail : Quoted q (ds ++ raw) from ih htail hds
    rw [List.cons_append] at h
    -- the cases tell characters apart, not how the list was put together
    generalize ds ++ raw = rest at h ⊢
    cases h with
    | plain _ _ _ h => exact h
    | escaped _ => exact absurd rfl hd

/-- **The next piece of a literal,** unless its characters end or are faulty here. -/
theorem next_piece (hN : ∀ {ds n}, N ds n → Numeral ds n) {q : Char} (h : Quoted q raw) :
    raw = [] ∨ (∃ p x rest, raw = p ++ rest ∧ Piece N p x ∧ Quoted q rest) ∨ Faulty N raw := by
  cases h with
  | nil => exact .inl rfl
  | @plain x rest _ hslash _ h => exact .inr (.inl ⟨[x], x, rest, rfl, .plain hslash, h⟩)
  | @escaped x rest h =>
    by_cases hx : x = 'u'
    · subst hx
      -- what follows is no number, the number of no character, or that of `y`
      by_cases hnumber : ∃ ds rest' n, rest = ds ++ rest' ∧ N ds n
      · obtain ⟨ds, rest', n, rfl, hn⟩ := hnumber
        by_cases hsurrogate : Surrogate n
        · exact .inr (.inr ⟨[], _, [], rfl, .nil, .inr ⟨ds, rest', n, rfl, hn, hsurrogate⟩⟩)
        · obtain ⟨y, hy⟩ := Option.ne_none_iff_exists'.1 (mt char?_eq_none_iff.1 hsurrogate)
          obtain rfl := (char?_eq_some_iff (hN hn).lt).1 hy
          exact .inr (.inl ⟨_, y, rest', rfl, .number hn, quoted_of_append h (hN hn).no_backslash⟩)
      · exact .inr (.inr ⟨[], rest, [], rfl, .nil, .inl hnumber⟩)
    · exact .inr (.inl ⟨['\\', x], _, rest, rfl, .ofEscaped hx, h⟩)

/-- **What may stand between quotes stands for a text or is faulty.** -/
theorem standsFor_or_faulty (hN : ∀ {ds n}, N ds n → Numeral ds n) {q : Char}
    (h : Quoted q raw) : (∃ s, StandsFor N raw s) ∨ Faulty N raw := by
  -- a number takes several characters at once, so the induction is on their number
  induction hlength : raw.length using Nat.strong_induction_on generalizing raw with
  | _ length ih =>
  subst hlength
  rcases next_piece hN h with rfl | ⟨p, x, rest, rfl, hp, hrest⟩ | hfaulty
  · exact .inl ⟨[], .nil⟩
  · have hshorter : rest.length < (p ++ rest).length := by
      rw [List.length_append]
      exact Nat.lt_add_of_pos_left hp.length_pos
    rcases ih _ hshorter hrest rfl with ⟨s, hs⟩ | hfaulty
    · exact .inl ⟨x :: s, .cons hp hs⟩
    · exact .inr (hfaulty.cons hp)
  · exact .inr hfaulty

end

/-! ### What decoding does -/

variable {raw : List Char} {q : Char}

/-- It is enough that decoding follows what is said by `N`, for texts and for faults. -/
theorem decodedBy_of_agrees {N : List Char → Nat → Prop} (hN : ∀ {ds n}, N ds n → Numeral ds n)
    (h : Quoted q raw) (hsome : ∀ s, StandsFor N raw s → decode raw = some s)
    (hnone : Faulty N raw → decode raw = none) : DecodedBy N raw := by
  rcases standsFor_or_faulty hN h with ⟨s, hs⟩ | hfaulty
  · have hdecode := hsome s hs
    refine ⟨fun s' => ⟨fun h' => ?_, hsome s'⟩, fun h' => ?_, hnone⟩
    · rw [hdecode] at h'
      obtain rfl := Option.some_inj.1 h'
      exact hs
    · rw [hdecode] at h'
      cases h'
  · have hdecode := hnone hfaulty
    refine ⟨fun s' => ⟨fun h' => ?_, hsome s'⟩, fun _ => hfaulty, hnone⟩
    rw [hdecode] at h'
    cases h'

/-- **Decoding knows the numerals.** -/
theorem decodedBy_numeral (h : Quoted q raw) : DecodedBy Numeral raw :=
  decodedBy_of_agrees id h (fun _ hs => hs.decode_eq) fun hfaulty => hfaulty.decode_eq

theorem StandsFor.numeral {s : List Char} (h : StandsFor FourDigits raw s) :
    StandsFor Numeral raw s := by
  induction h with
  | nil => exact .nil
  | cons hp _ ih =>
    refine .cons ?_ ih
    cases hp with
    | plain hx => exact .plain hx
    | shorthand hx => exact .shorthand hx
    | itself hu hx => exact .itself hu hx
    | number hn => exact .number (.inl hn)

/-- Without signs, faults are the same for four digits. -/
theorem Faulty.numeral (h : Faulty FourDigits raw) (hsigned : ¬ Signed raw) :
    Faulty Numeral raw := by
  obtain ⟨before, after, s, rfl, hbefore, hfault⟩ := h
  refine ⟨before, after, s, rfl, hbefore.numeral, ?_⟩
  rcases hfault with hno | ⟨ds, rest, n, hds, hn, hsurrogate⟩
  · refine .inl ?_
    rintro ⟨ds, rest, n, rfl, hfour | ⟨ds', rfl, -, -⟩⟩
    · exact hno ⟨ds, rest, n, rfl, hfour⟩
    · exact hsigned ⟨before, ds' ++ rest, s, rfl, hbefore⟩
  · exact .inr ⟨ds, rest, n, hds, .inl hn, hsurrogate⟩

/-- **Without signs, decoding knows four digits only.** -/
theorem decodedBy_fourDigits (h : Quoted q raw) (hsigned : ¬ Signed raw) :
    DecodedBy FourDigits raw :=
  decodedBy_of_agrees .inl h (fun _ hs => hs.numeral.decode_eq) fun hfaulty =>
    (hfaulty.numeral hsigned).decode_eq

end ScriptModules.Escape

namespace ScriptModules

open Grammar Grammar.RuleSet

/-! ### Literals in a text -/

section

variable {q : Char} {c c' : Cursor} {ns : List (Node Rule)}

theorem text_of_comes {at_ : Atomicity} {cs : List Char}
    (h : script.Comes at_ (.text cs) c (some (c', ns))) : ns = [] ∧ c.rest = cs ++ c'.rest := by
  cases h with
  | text h => exact ⟨rfl, (Cursor.strip?_reaches h).2⟩

/-- What a literal repeats may stand between quotes. -/
theorem quoted_of_quotedChar (h : script.Comes .atomic (quotedChar q) c (some (c', ns))) :
    ∃ taken, c.rest = taken ++ c'.rest ∧ ∀ raw, Quoted q raw → Quoted q (taken ++ raw) := by
  cases h with
  | altFirst h =>
    obtain ⟨_, _, _, hslash, hany⟩ := h.next_parts (by decide)
    have hrest := (text_of_comes hslash).2
    cases hany with
    | @char _ _ _ x rest _ => exact ⟨['\\', x], hrest, fun _ => .escaped⟩
  | altSecond _ h =>
    cases h with
    | @char _ _ _ x rest hx =>
      have hother : x ≠ q ∧ x ≠ '\\' ∧ x ≠ '\n' := by simpa [CharClass.has] using hx
      exact ⟨[x], rfl, fun _ => .plain hother.1 hother.2.1 hother.2.2⟩

theorem quoted_of_star
    (h : script.Comes .atomic (.star (.cat .blank (quotedChar q))) c (some (c', ns))) :
    ∃ raw, c.rest = raw ++ c'.rest ∧ Quoted q raw := by
  generalize hp : Pattern.star (.cat .blank (quotedChar q)) = p at h
  generalize hr : some (c', ns) = r at h
  generalize hat : Atomicity.atomic = at_ at h
  -- by induction on the repetition, whose first turn takes a character or two
  induction h generalizing c' ns with
  | starEnd _ _ =>
    cases hr
    exact ⟨[], rfl, .nil⟩
  | star h _ _ ih =>
    cases hp
    cases hr
    cases hat
    obtain ⟨raw, hraw, hquoted⟩ := ih rfl rfl rfl
    cases h with
    | cat hblank hchar =>
      cases hblank
      rw [if_neg (by decide)] at hchar
      obtain ⟨taken, htaken, hcons⟩ := quoted_of_quotedChar hchar
      exact ⟨taken ++ raw, by rw [htaken, hraw, List.append_assoc], hcons raw hquoted⟩
  | _ => cases hp

/-- **What is matched between quotes may stand there.** -/
theorem quoted_of_comes {r : Rule} (hbody : script.body r = Rule.quoted q)
    (hmode : script.mode r = .atomic)
    (h : script.Comes .compound (.rule r) c (some (c', ns))) :
    ∃ n, ns = [n] ∧ Quoted q n.chars ∧ c.rest = n.chars ++ c'.rest := by
  have hreaches := h.reaches
  cases h with
  | @rule _ _ _ _ ns h =>
    rw [atomicityIn, hmode, hbody] at h
    obtain ⟨raw, hrest, hquoted⟩ : ∃ raw, c.rest = raw ++ c'.rest ∧ Quoted q raw := by
      cases h with
      | optionalNot _ => exact ⟨[], rfl, .nil⟩
      | optional h =>
        cases h with
        | cat hfirst hmore =>
          obtain ⟨taken, htaken, hcons⟩ := quoted_of_quotedChar hfirst
          obtain ⟨raw, hraw, hquoted⟩ := quoted_of_star hmore
          exact ⟨taken ++ raw, by rw [htaken, hraw, List.append_assoc], hcons raw hquoted⟩
    have hchars : (Node.mk r c c'.offset ns).chars = raw := hreaches.take_eq hrest
    refine ⟨.mk r c c'.offset ns, ?_, ?_, ?_⟩
    · rw [nodesOf, leaves, hmode]
      rfl
    · rwa [hchars]
    · rwa [hchars]

/-- A literal with quotes of one kind. -/
theorem quotes_of_comes {r : Rule} (hbody : script.body r = Rule.quoted q)
    (hmode : script.mode r = .atomic)
    (h : script.Comes .compound (.seq (.text [q]) [.rule r, .text [q]]) c (some (c', ns))) :
    ∃ n, ns = [n] ∧ Quoted q n.chars ∧ c.rest = (q :: (n.chars ++ [q])) ++ c'.rest := by
  obtain ⟨c₁, _, _, hopen, hbehind, rfl⟩ := Comes.next_nodes (by decide) h
  obtain ⟨c₂, _, _, hinner, hclose, rfl⟩ := Comes.next_nodes (by decide) hbehind
  obtain ⟨rfl, hrest⟩ := text_of_comes hopen
  obtain ⟨n, rfl, hquoted, hrest₁⟩ := quoted_of_comes hbody hmode hinner
  obtain ⟨rfl, hrest₂⟩ := text_of_comes hclose
  refine ⟨n, rfl, hquoted, ?_⟩
  simp [hrest, hrest₁, hrest₂]

/-- **What the grammar takes for a literal** lies between quotes of one kind. -/
theorem literal_of_matched {k : Nat} {at_ : Atomicity} {a : Attempts Rule}
    (h : (script.run k at_ (.rule .stringLiteral) c a).1 = .matched c' ns) :
    ∃ (inner : Node Rule) (q : Char), ns = [.mk .stringLiteral c c'.offset [inner]] ∧
      Quoted q inner.chars ∧
      (Node.mk Rule.stringLiteral c c'.offset [inner]).chars = q :: (inner.chars ++ [q]) := by
  have hagrees := (script.run_agrees k).1 at_ (.rule .stringLiteral) c a
  rw [h] at hagrees
  have hcomes : script.Comes at_ (.rule .stringLiteral) c (some (c', ns)) := hagrees
  have hreaches := hcomes.reaches
  clear h hagrees
  cases hcomes with
  | @rule _ _ _ _ ns h =>
    obtain ⟨q, n, rfl, hquoted, hrest⟩ : ∃ q n, ns = [n] ∧ Quoted q n.chars ∧
        c.rest = (q :: (n.chars ++ [q])) ++ c'.rest := by
      cases h with
      | altFirst h => exact ⟨'"', quotes_of_comes (r := .doubleQuoted) rfl rfl h⟩
      | altSecond _ h => exact ⟨'\'', quotes_of_comes (r := .singleQuoted) rfl rfl h⟩
    exact ⟨n, q, rfl, hquoted, hreaches.take_eq hrest⟩

end

/-! ### Literals for every text -/

namespace Escape

/-- The characters that stand for `x` between quotes of either kind. -/
def escapeChar (x : Char) : List Char :=
  if x = '\n' then ['\\', 'n'] else if x = '\\' ∨ x = '"' ∨ x = '\'' then ['\\', x] else [x]

/-- **The characters that stand for a text:** a backslash stands before backslashes and quotes, and a
line end is written by a letter. -/
def escape (s : List Char) : List Char := s.flatMap escapeChar

theorem escapeChar_piece (x : Char) : Piece Numeral (escapeChar x) x := by
  unfold escapeChar
  split
  · next hx =>
    subst hx
    exact .shorthand (by decide)
  · split
    · next hx => rcases hx with rfl | rfl | rfl <;> exact .itself (by decide) (by decide)
    · next hx => exact .plain fun h => hx (.inl h)

/-- **What is escaped stands for the text.** -/
theorem escape_standsFor (s : List Char) : StandsFor Numeral (escape s) s := by
  induction s with
  | nil => exact .nil
  | cons x s ih => exact .cons (escapeChar_piece x) ih

/-- What is escaped may stand between quotes of either kind. -/
theorem escape_quoted {q : Char} (hq : q = '"' ∨ q = '\'') (s : List Char) :
    Quoted q (escape s) := by
  induction s with
  | nil => exact .nil
  | cons x s ih =>
    have hcons : escape (x :: s) = escapeChar x ++ escape s := rfl
    rw [hcons]
    unfold escapeChar
    split
    · exact .escaped ih
    · split
      · exact .escaped ih
      · next hline hx =>
        simp only [not_or] at hx
        refine .plain ?_ hx.1 hline ih
        rcases hq with rfl | rfl
        · exact hx.2.1
        · exact hx.2.2

end Escape

/-- No expression goes on at the end of a text. -/
theorem ends_finished : Ends [] where
  solid := solid_nil
  arrow := looks_finished.fails (by decide +kernel)
  assign := looks_finished.fails (by decide +kernel)
  access := looks_finished.fails (by decide +kernel)
  operator := looks_finished.fails (by decide +kernel)
  question := looks_finished.fails (by decide +kernel)
  equals := looks_finished.fails (by decide +kernel)

/-- The last statement of a text may do without a semicolon. -/
theorem semicolon_missing : script.Reads Rule.semicolon [] [] Nothing :=
  have hopen : script.Fails (.lit ";") [] := looks_finished.fails (by decide +kernel)
  hopen.optional solid_nil

/-- A literal is a statement. -/
theorem IsLiteral.statement {s : String} {cs : List Char} (h : IsLiteral s cs) :
    script.Reads (.rule .statement) cs []
      (Sole (StmtNode (.expression (.literal (.text s))))) := by
  have hlaid : Laid [.text s] cs [] := .last h
  have hexpression : script.Reads (.rule .expression) cs [] (Sole (ExprNode (.literal (.text s)))) :=
    readable_literal (σ := ⟨false, false⟩) (.text s) cs [] hlaid ends_finished
  -- the text does not look like a statement of another kind
  have hbefore : ∀ r ∈ statementRules.takeWhile (· ≠ .expressionStatement),
      Next.text.dismisses (.rule r) = true := by decide +kernel
  exact statement_of_expression (fun r hr => hlaid.text_looks.fails (hbefore r hr)) hexpression
    semicolon_missing

/-- **A literal is a script,** which has its text. -/
theorem IsLiteral.parse {s : String} {cs : List Char} (h : IsLiteral s cs) :
    Program.parse (String.ofList cs) = .ok ⟨[.expression (.literal (.text s))]⟩ := by
  have hlaid : Laid [.text s] cs [] := .last h
  have heach : script.ReadsEach (.rule .statement) StmtNode [.expression (.literal (.text s))] cs [] :=
    ⟨[], h.statement, rfl, looks_finished.not (by decide)⟩
  exact Program.parse_of_reads hlaid.solid heach

/-! ### The main statement -/

namespace Escape

/-- **Escapes are decoded exactly.** Every text that is escaped is read back from a literal with quotes
of either kind.

What the grammar takes for a literal, wherever in a text, has the text that the characters between its
quotes stand for, or is refused because they are faulty. Numbers are four digits of base 16, if no sign
stands where one begins; else they may also be a plus sign and three digits. -/
theorem literal_decoded (s : String) :
    (∀ q : Char, q = '"' ∨ q = '\'' →
      Program.parse (String.ofList (q :: (escape s.toList ++ [q]))) =
        .ok ⟨[.expression (.literal (.text s))]⟩) ∧
    ∀ (k : Nat) (at_ : Atomicity) (c c' : Cursor) (a : Attempts Rule) (ns : List (Node Rule)),
      (script.run k at_ (.rule .stringLiteral) c a).1 = .matched c' ns →
        ∃ n q raw, ns = [n] ∧ n.chars = q :: (raw ++ [q]) ∧ Quoted q raw ∧
          (literalText n = match decode raw with
            | some s => .ok (String.ofList s)
            | none => fault .invalidEscape n) ∧
          DecodedBy Numeral raw ∧ (¬ Signed raw → DecodedBy FourDigits raw) := by
  refine ⟨fun q hq => ?_, fun k at_ c c' a ns h => ?_⟩
  · have hquoted := escape_quoted hq s.toList
    have hdecode := (escape_standsFor s.toList).decode_eq
    rcases hq with rfl | rfl
    · exact (IsLiteral.double hquoted hdecode).parse
    · exact (IsLiteral.single hquoted hdecode).parse
  · obtain ⟨inner, q, rfl, hquoted, hchars⟩ := literal_of_matched h
    exact ⟨_, q, inner.chars, rfl, hchars, hquoted, rfl, decodedBy_numeral hquoted,
      decodedBy_fourDigits hquoted⟩

/-- A text with a quote and a line end is read back, and the characters of a literal with escapes of
three kinds stand for its text. -/
theorem literal_decoded_of_quote :
    Program.parse "\"it\\'s\\n\"" = .ok ⟨[.expression (.literal (.text "it's\n"))]⟩ ∧
    ∃ c n q raw, (script.run (matchFuel 12) .loose (.rule .stringLiteral)
        (Cursor.start "'\\u0041\\'\\n'".toList) {}).1 = .matched c [n] ∧
      n.chars = q :: (raw ++ [q]) ∧ StandsFor Numeral raw ['A', '\'', '\n'] := by
  obtain ⟨scripts, literals⟩ := literal_decoded "it's\n"
  refine ⟨scripts '"' (.inl rfl), ?_⟩
  have hquoted : Quoted '\'' ['\\', 'u', '0', '0', '4', '1', '\\', '\'', '\\', 'n'] :=
    .escaped (.plain (by decide) (by decide) (by decide) (.plain (by decide) (by decide) (by decide)
      (.plain (by decide) (by decide) (by decide) (.plain (by decide) (by decide) (by decide)
        (.escaped (.escaped .nil))))))
  -- the matcher reads the literal, so that the law about matched literals applies to its node
  have hliteral : IsLiteral "A'\n" _ := .single hquoted (by decide)
  have hend : ∀ k, (skipBlank k []).rest = [] := fun _ => rfl
  obtain ⟨c, _, hcomes, -, n, rfl, -, htext⟩ := IsLiteral.reads hliteral hend 0
  have hrun : (script.run (matchFuel 12) .loose (.rule .stringLiteral) _ {}).1 = .matched c [n] :=
    matched_iff_comes.2 hcomes
  obtain ⟨_, q, raw, ⟨⟩, hchars, -, hdecode, hdecoded, -⟩ := literals _ _ _ _ _ _ hrun
  refine ⟨c, n, q, raw, hrun, hchars, (hdecoded.1 _).1 ?_⟩
  rw [htext] at hdecode
  cases hraw : decode raw with
  | none =>
    rw [hraw] at hdecode
    cases hdecode
  | some s =>
    rw [hraw] at hdecode
    have hs : "A'\n".toList = s := by rw [Except.ok.inj hdecode, String.toList_ofList]
    exact congrArg some hs.symm

/-- A plus sign and three digits are taken for a number, though they are not four digits. -/
theorem signed_number_accepted :
    Faulty FourDigits ['\\', 'u', '+', '0', '4', '1'] ∧
      Program.parse "'\\u+041'" = .ok ⟨[.expression (.literal (.text "A"))]⟩ := by
  constructor
  · refine ⟨[], _, [], rfl, .nil, .inl ?_⟩
    rintro ⟨ds, rest, n, hds, hlength, hdigits⟩
    match ds, hlength with
    | [d, _, _, _], _ =>
      obtain rfl : '+' = d := (List.cons.inj hds).1
      exact hdigits.not_mem (by decide) (List.mem_cons_self ..)
  · have hquoted : Quoted '\'' ['\\', 'u', '+', '0', '4', '1'] :=
      .escaped (.plain (by decide) (by decide) (by decide) (.plain (by decide) (by decide) (by decide)
        (.plain (by decide) (by decide) (by decide) (.plain (by decide) (by decide) (by decide) .nil))))
    exact (IsLiteral.single (s := "A") hquoted (by decide)).parse

end Escape

end ScriptModules
