import ScriptModules.Proofs.Indices
import ScriptModules.Proofs.Numerals

/-!
# Numbers as indices

A whole number that is no less than zero is an index. Where one stands for a key, its text is read as
the index again, as long as 64 bits hold it (`Number.IsIndex.parseIndex_text`).

Below `10 ^ 21` the text of a whole number has all its digits. A greater one is written with the fewest
digits that read back, and zeros behind them. What they stand for is rounded, but it is at least half of
the number (`Number.shortestFrom_ge`), so there are too many of them for an index.
-/

namespace ScriptModules

/-- What has a character that is neither a digit nor a plus sign is no index. -/
theorem parseIndex_eq_none_of_mem {key : String} {c : Char} (hc : c ∈ key.toList)
    (hdigit : Number.isDigit c = false) (hplus : c ≠ '+') : parseIndex key = none := by
  cases hkey : parseIndex key with
  | none => rfl
  | some i =>
    exfalso
    rcases (parseIndex_eq_some_iff.1 hkey).2 with rfl | ⟨ds, hds, -, rfl⟩
    · rw [Nat.toString_eq_repr, Nat.toList_repr] at hc
      rw [(Number.toDigits_digits i).2 c hc] at hdigit
      cases hdigit
    · rw [String.toList_ofList] at hc
      rcases List.mem_cons.1 hc with rfl | hc
      · exact hplus rfl
      · rw [hds.2 c hc] at hdigit
        cases hdigit

namespace Number

/-! ### The digits of great numbers -/

theorem isDigit_zeros {k : Nat} : ∀ c ∈ zeros k, isDigit c = true := fun c hc => by
  rw [(List.mem_replicate.1 hc).2]
  decide

theorem ofDigitChars_zeros (k n : Nat) : Nat.ofDigitChars 10 (zeros k) n = n * 10 ^ k := by
  induction k generalizing n with
  | zero => rw [Nat.pow_zero, Nat.mul_one]; rfl
  | succ k ih =>
    calc Nat.ofDigitChars 10 (zeros (k + 1)) n
        = Nat.ofDigitChars 10 (zeros k) (10 * n + 0) := Nat.ofDigitChars_cons ..
      _ = n * 10 ^ (k + 1) := by rw [ih, Nat.pow_succ]; ring

namespace Decimal

variable {d : Decimal} {j : Nat}

/-- A decimal that is read as an index is written without a point, -/
theorem exponent_of_parseIndex (h : parseIndex d.positional = some j) : 0 ≤ d.exponent := by
  by_contra hexponent
  have hpoint : '.' ∈ d.positional.toList := by
    unfold positional
    simp only [if_neg hexponent]
    split <;> simp
  rw [parseIndex_eq_none_of_mem hpoint (by decide) (by decide)] at h
  cases h

/-- **and stands for the index.** -/
theorem value_of_parseIndex (hd : 0 < d.digits) (h : parseIndex d.positional = some j) :
    d.digits * 10 ^ d.exponent.toNat = j := by
  obtain ⟨c, cs, hcs, -⟩ := exists_toDigits hd
  have hc : isDigit c = true := (toDigits_digits d.digits).2 c (hcs ▸ List.mem_cons_self ..)
  have htext : d.positional = String.ofList (Nat.toDigits 10 d.digits ++ zeros d.exponent.toNat) := by
    unfold positional
    exact if_pos (exponent_of_parseIndex h)
  have hunsigned : d.positional.toList.head? ≠ some '+' := by
    rw [htext, String.toList_ofList, hcs, List.cons_append, List.head?_cons]
    intro hplus
    rw [Option.some.inj hplus] at hc
    exact absurd hc (by decide)
  have hsame := ((parseIndex_of_unsigned hunsigned).1 h).2
  rw [htext, toDigits_append isDigit_zeros hd, ofDigitChars_zeros, ← Nat.repr_eq_ofList_toDigits,
    Nat.toString_eq_repr] at hsame
  exact Nat.repr_injective hsame

/-- Zeros that are moved into the exponent do not change the value. -/
theorem stripped_value (fuel : Nat) (d : Decimal) :
    ∃ k : Nat, (d.stripped fuel).exponent = d.exponent + k ∧
      d.digits = (d.stripped fuel).digits * 10 ^ k := by
  induction fuel generalizing d with
  | zero => exact ⟨0, (Int.add_zero _).symm, (Nat.mul_one _).symm⟩
  | succ fuel ih =>
    unfold stripped
    split
    · next hzero =>
      obtain ⟨k, hexponent, hdigits⟩ := ih ⟨d.digits / 10, d.exponent + 1⟩
      have hdigits : d.digits / 10 = _ * 10 ^ k := hdigits
      refine ⟨k + 1, by rw [hexponent]; push_cast; ring, ?_⟩
      rw [Nat.pow_succ, ← Nat.mul_assoc, ← hdigits]
      omega
    · exact ⟨0, (Int.add_zero _).symm, (Nat.mul_one _).symm⟩

end Decimal

/-- What is rounded to a number is at least half of the number. -/
theorem Interval.le_of_covers {i : Interval} {d : Nat} (h : i.covers d = true) :
    i.num ≤ 2 * (d * i.den) := by
  have hstep : i.num / i.mantissa ≤ i.num := Nat.div_le_self ..
  simp only [Interval.covers] at h
  split at h
  · omega
  · split at h <;> split at h <;> simp only [decide_eq_true_eq] at h <;> omega

theorem Interval.le_of_nearest? {i : Interval} {tie : Tie} {d : Nat} (h : i.nearest? tie = some d) :
    i.num ≤ 2 * (d * i.den) := by
  have hcovers : i.covers d = true := by
    unfold Interval.nearest? at h
    grind
  exact le_of_covers hcovers

/-- A decimal that stands for a point of a grid compares with the quotient as the point does with the
quotient on that grid. -/
theorem Ratio.le_of_shift {r : Ratio} {places : Int} {d k : Nat} {x : Decimal}
    (hd : d = x.digits * 10 ^ k) (hk : x.exponent = -places + k) (hexponent : 0 ≤ x.exponent)
    (h : (r.shift places).num ≤ 2 * (d * (r.shift places).den)) :
    r.num ≤ 2 * (x.digits * 10 ^ x.exponent.toNat * r.den) := by
  have hpowers : 10 ^ k * 10 ^ (-places).toNat = 10 ^ x.exponent.toNat * 10 ^ places.toNat := by
    rw [← Nat.pow_add, ← Nat.pow_add]
    congr 1
    omega
  have hgrid : r.num * 10 ^ places.toNat ≤
      2 * (x.digits * 10 ^ k * (r.den * 10 ^ (-places).toNat)) := hd ▸ h
  refine Nat.le_of_mul_le_mul_right ?_ (Nat.pow_pos (n := places.toNat) (by decide : 0 < 10))
  calc r.num * 10 ^ places.toNat
      ≤ 2 * (x.digits * 10 ^ k * (r.den * 10 ^ (-places).toNat)) := hgrid
    _ = 2 * (x.digits * r.den * (10 ^ k * 10 ^ (-places).toNat)) := by ring
    _ = 2 * (x.digits * r.den * (10 ^ x.exponent.toNat * 10 ^ places.toNat)) := by rw [hpowers]
    _ = 2 * (x.digits * 10 ^ x.exponent.toNat * r.den) * 10 ^ places.toNat := by ring

/-- The shortest decimal of a quotient is at least half of it, unless it has a point. -/
theorem shortestFrom_ge (tie : Tie) (m : Nat) (r : Ratio) (magnitude : Int) (fuel : Nat) {count : Nat}
    (hcount : 0 < count) (hexponent : 0 ≤ (shortestFrom tie m r magnitude fuel count).exponent) :
    r.num ≤ 2 * ((shortestFrom tie m r magnitude fuel count).digits *
      10 ^ (shortestFrom tie m r magnitude fuel count).exponent.toNat * r.den) := by
  induction fuel generalizing count with
  | zero =>
    have : (shortestFrom tie m r magnitude 0 count).exponent = -count := rfl
    omega
  | succ fuel ih =>
    obtain ⟨places, hplaces⟩ : ∃ places : Int, (count : Int) - 1 - magnitude = places := ⟨_, rfl⟩
    cases hnearest : Interval.nearest? tie ⟨m, (r.shift places).num, (r.shift places).den⟩ with
    | some d =>
      have hfrom : shortestFrom tie m r magnitude (fuel + 1) count =
          Decimal.stripped (count + 1) ⟨d, -places⟩ := by
        simp only [shortestFrom, hplaces, hnearest]
      rw [hfrom] at hexponent ⊢
      obtain ⟨k, hk, hd⟩ := Decimal.stripped_value (count + 1) ⟨d, -places⟩
      exact Ratio.le_of_shift hd hk hexponent (Interval.le_of_nearest? hnearest)
    | none =>
      -- no point of this grid is near enough, and the next grid is finer
      have hfrom : shortestFrom tie m r magnitude (fuel + 1) count =
          shortestFrom tie m r magnitude fuel (count + 1) := by
        simp only [shortestFrom, hplaces, hnearest]
      rw [hfrom] at hexponent ⊢
      exact ih count.succ_pos hexponent

theorem wholePart_zero (e : Int) : wholePart 0 e = 0 := by
  rw [wholePart, Nat.zero_mul, Nat.zero_div, ite_self]

/-- A quotient is at least its whole part. -/
theorem Ratio.ofBinary_ge (m : Nat) (e : Int) :
    0 < (Ratio.ofBinary m e).den ∧ wholePart m e * (Ratio.ofBinary m e).den ≤ (Ratio.ofBinary m e).num := by
  refine ⟨Nat.pow_pos (by decide), ?_⟩
  unfold wholePart ofBinary
  split
  · next he =>
    have hden : (-e).toNat = 0 := by omega
    rw [hden]
    exact Nat.le_of_eq (Nat.mul_one _)
  · next he =>
    have hnum : e.toNat = 0 := by omega
    rw [hnum]
    exact (Nat.div_mul_le_self ..).trans (Nat.le_of_eq (Nat.mul_one m).symm)

/-- The digits of a whole number that has no exact text: there are too many for an index. -/
theorem parseIndex_plain {m : Nat} {e : Int} (hgreat : 10 ^ 21 ≤ wholePart m e) :
    parseIndex (plain m e) = none := by
  have hm : m ≠ 0 := by
    rintro rfl
    rw [wholePart_zero] at hgreat
    omega
  cases hkey : parseIndex (plain m e) with
  | none => rfl
  | some j =>
    exfalso
    have hword : j < 2 ^ 64 := (parseIndex_eq_some_iff.1 hkey).1
    -- the decimal is not below half of the number, and an index is far below that
    rw [plain, if_neg hm] at hkey
    have hhalf : (Ratio.ofBinary m e).num ≤ 2 * ((shortest .up m e).digits *
        10 ^ (shortest .up m e).exponent.toNat * (Ratio.ofBinary m e).den) :=
      shortestFrom_ge .up m _ _ 17 Nat.one_pos (Decimal.exponent_of_parseIndex hkey)
    obtain ⟨hden, hnum⟩ := Ratio.ofBinary_ge m e
    have hdigits : 0 < (shortest .up m e).digits := by
      refine Nat.pos_of_ne_zero fun hzero => ?_
      rw [hzero, Nat.zero_mul, Nat.zero_mul, Nat.mul_zero] at hhalf
      have hpos := Nat.mul_pos (Nat.lt_of_lt_of_le (Nat.pow_pos (by decide)) hgreat) hden
      omega
    rw [Decimal.value_of_parseIndex hdigits hkey, ← Nat.mul_assoc] at hhalf
    have htwice : wholePart m e ≤ 2 * j := Nat.le_of_mul_le_mul_right (hnum.trans hhalf) hden
    omega

/-! ### Numbers as indices -/

/-- The number is a whole one without a minus sign, or zero: the index. -/
def IsIndex (x : Float) (i : Nat) : Prop :=
  ∃ negative, whole? x = some (negative, i) ∧ (negative → i = 0)

theorem wholePart_eq_zero {m : Nat} {e : Int} (hwhole : isWhole m e = true) (h : wholePart m e = 0) :
    m = 0 := by
  unfold isWhole at hwhole
  unfold wholePart at h
  split at h
  · exact (Nat.mul_eq_zero.1 h).resolve_right (Nat.pow_pos (by decide)).ne'
  · next he =>
    have hmod : m % Nat.pow 2 (-e).toNat = 0 := by simpa [he] using hwhole
    rw [← Nat.div_add_mod m (Nat.pow 2 (-e).toNat), h, hmod, Nat.mul_zero]

/-- **The text of an index is read as the index** if 64 bits hold it, and as none if not. -/
theorem IsIndex.parseIndex_text {x : Float} {i : Nat} (h : IsIndex x i) :
    parseIndex (text x) = if i < 2 ^ 64 then some i else none := by
  obtain ⟨negative, hwhole, hsign⟩ := h
  unfold whole? at hwhole
  unfold Number.text
  split at hwhole
  · next minus m e hdecode =>
    rw [hdecode]
    split at hwhole
    · next hw =>
      obtain ⟨rfl, rfl⟩ := Prod.mk.inj (Option.some.inj hwhole)
      simp only
      split
      · next hm =>
        rw [hm, wholePart_zero]
        decide
      · next hm =>
        have hplus : minus = false := by
          cases minus with
          | false => rfl
          | true => exact absurd (wholePart_eq_zero hw (hsign rfl)) hm
        subst hplus
        split
        · -- few digits are all written
          rw [← parseIndex_toString, Nat.toString_eq_repr, Nat.repr_eq_ofList_toDigits]
          rfl
        · next hgreat =>
          rw [hw, Bool.true_and, decide_eq_true_iff, Nat.not_lt] at hgreat
          rw [if_neg (by have : 10 ^ 21 ≤ wholePart m e := hgreat; omega)]
          exact parseIndex_plain hgreat
    · cases hwhole
  · cases hwhole

/-- Numbers that floats hold exactly are indices. -/
theorem isIndex_ofNat {i : Nat} (hlt : i < 2 ^ 53) : IsIndex (Float.ofNat i) i := by
  refine ⟨false, ?_, nofun⟩
  rcases Nat.eq_zero_or_pos i with rfl | hpos
  · decide +kernel
  · obtain ⟨hwhole, hpart⟩ := mantissaOf_whole hpos hlt
    rw [whole?, decode_ofNat hpos hlt]
    simp only [hwhole, hpart, if_true]

end Number

end ScriptModules
