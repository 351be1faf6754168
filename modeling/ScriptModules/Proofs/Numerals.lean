import Mathlib
import ScriptModules.Proofs.Indices

/-!
# Numbers and the texts they are read from

A whole number below `2 ^ 53` is a float, and is not rounded on its way: its digits are read as the
float that has exactly this value (`Number.decode_ofNat`), and the text of that float is the digits
again (`Number.text_of_read_toDigits`). For this, the logical model of floats is followed from the word
that holds the number to the bits of the float. The number is brought to a mantissa of 53 binary
digits; shifts by as many places as there are zeros lose nothing (`Number.shiftRight_exact`), so
neither rounding does. A number below zero differs in its sign only (`Number.decode_neg_ofNat`).

No text of a number has an exponent (`Number.text_without_exponent`).
-/

namespace ScriptModules.Number

open Float.Model Float.Model.UnpackedFloat

/-! ### Mantissas that fit -/

section

variable {m : Nat} {e : Int}

theorem pos_of_log2 (hm : m.log2 = 52) : 0 < m := by
  by_contra hzero
  obtain rfl : m = 0 := by omega
  cases hm

theorem bounds_of_log2 (hm : m.log2 = 52) : 2 ^ 52 ≤ m ∧ m < 2 ^ 53 :=
  (Nat.log2_eq_iff (pos_of_log2 hm).ne').1 hm

theorem log2_mul_two_pow (hm : 0 < m) (k : Nat) : (m * 2 ^ k).log2 = m.log2 + k := by
  obtain ⟨hle, hlt⟩ := (Nat.log2_eq_iff hm.ne').1 rfl
  have hpos : 0 < 2 ^ k := Nat.two_pow_pos k
  refine (Nat.log2_eq_iff (Nat.mul_pos hm hpos).ne').2 ⟨?_, ?_⟩
  · rw [Nat.pow_add]
    exact Nat.mul_le_mul_right _ hle
  · rw [Nat.add_right_comm, Nat.pow_add]
    exact Nat.mul_lt_mul_of_pos_right hlt hpos

/-! ### Rounding -/

/-- **Zeros are shifted out without a trace.** -/
theorem shiftRight_exact (m k : Nat) :
    ExtendedMantissa.ofMantissaAndAccuracy (m * 2 ^ k) .exact >>> k =
      ExtendedMantissa.ofMantissaAndAccuracy m .exact := by
  change k.repeat ExtendedMantissa.shiftRightOne _ = _
  induction k generalizing m with
  | zero => simp [Nat.repeat]
  | succ k ih =>
    have hshift : m * 2 ^ (k + 1) = m * 2 * 2 ^ k := by ring
    rw [Nat.repeat, hshift, ih]
    simp [ExtendedMantissa.ofMantissaAndAccuracy, ExtendedMantissa.shiftRightOne]

theorem targetExponent_eq (t : Int) : Format.binary64.targetExponent t = max (t - 53) (-1074) := by
  rw [Format.targetExponent]
  rfl

theorem shiftToTargetExponent_exact {k : Nat} (hm : m.log2 = 52) (he : -1074 ≤ e) :
    shiftToTargetExponent Format.binary64 (m * 2 ^ k) (e - k) .exact =
      (ExtendedMantissa.ofMantissaAndAccuracy m .exact, e) := by
  have htarget : Format.binary64.targetExponent (totalExponent (m * 2 ^ k) (e - k)) = e := by
    rw [targetExponent_eq, totalExponent, log2_mul_two_pow (pos_of_log2 hm), hm]
    omega
  have hamount : (e - (e - k)).toNat = k := by omega
  rw [shiftToTargetExponent, htarget, shiftToExponent, hamount, shiftRight_exact, Int.sub_add_cancel]

/-- **What fits behind its zeros is not rounded.** -/
theorem roundWithAccuracy_exact {k : Nat} (hm : m.log2 = 52) (he : -1074 ≤ e) :
    roundWithAccuracy Format.binary64 .positive (m * 2 ^ k) (e - k) .exact =
      .finite .positive m e (pos_of_log2 hm) := by
  have hagain := shiftToTargetExponent_exact (k := 0) hm he
  rw [Nat.pow_zero, Nat.mul_one, Int.natCast_zero, Int.sub_zero] at hagain
  have hrounded : (ExtendedMantissa.ofMantissaAndAccuracy m .exact).roundedMantissa = m := rfl
  have hmantissa : (ExtendedMantissa.ofMantissaAndAccuracy m .exact).mantissa = m := rfl
  rw [roundWithAccuracy, shiftToTargetExponent_exact hm he]
  simp only [hrounded, hagain, hmantissa]
  rw [dif_neg (pos_of_log2 hm).ne']

/-! ### Bits -/

/-- Whether a sign is that of negative numbers. -/
def isMinus : UnpackedFloat.Sign → Bool
  | .negative => true
  | .positive => false

variable {σ : UnpackedFloat.Sign}

theorem packComponents_toNat (b : BitVec 11) (f : BitVec 52) :
    (packComponents Format.binary64 σ b f).toNat =
      (isMinus σ).toNat * 2 ^ 63 + (b.toNat * 2 ^ 52 + f.toNat) := by
  have hsign : σ.toBitVec.toNat = (isMinus σ).toNat := by cases σ <;> rfl
  rw [packComponents, BitVec.toNat_append, BitVec.toNat_append,
    ← Nat.shiftLeft_add_eq_or_of_lt f.isLt, ← Nat.shiftLeft_add_eq_or_of_lt b.isLt, hsign,
    Nat.shiftLeft_eq, Nat.shiftLeft_eq]
  omega

/-- The first digit of a mantissa is not kept, and comes back. -/
theorem implicit_append (hm : m.log2 = 52) : (1#1 ++ BitVec.ofNat 52 m).toNat = m := by
  obtain ⟨hle, hlt⟩ := bounds_of_log2 hm
  rw [BitVec.toNat_append, ← Nat.shiftLeft_add_eq_or_of_lt (BitVec.isLt _), Nat.shiftLeft_eq,
    BitVec.toNat_ofNat, BitVec.toNat_ofNat]
  omega

theorem pack_eq (hm : m.log2 = 52) (he : -1074 ≤ e) (hle : e ≤ 971) (hpos) :
    UnpackedFloat.pack Format.binary64 (.finite σ m e hpos) =
      packComponents Format.binary64 σ (BitVec.ofNat _ (e + 1075).toNat)
        (BitVec.ofNat _ m) := by
  have hbiased : (e + Format.binary64.exponentBias + (52 : Nat)).toNat = (e + 1075).toNat := by
    have : (Format.binary64.exponentBias : Int) = 1023 := rfl
    omega
  have hfits : ¬ 2 ^ 11 ≤ (e + 1075).toNat + 1 := by omega
  have hbits : m.log2 + 1 = Format.binary64.mantissaBits := by
    rw [hm]
    rfl
  simp only [UnpackedFloat.pack, hbiased, if_neg hfits, if_pos hbits]

/-- What was packed is unpacked. -/
theorem unpack_pack (hm : m.log2 = 52) (he : -1074 ≤ e) (hle : e ≤ 971) (hpos) :
    (Float.Model.pack (.finite σ m e hpos)).unpack = .finite σ m e hpos := by
  have hexponent : (BitVec.ofNat 11 (e + 1075).toNat).toNat = (e + 1075).toNat := by
    rw [BitVec.toNat_ofNat]
    omega
  -- it is none of the two exponents that mean something else
  have hother : ∀ v : BitVec 11, v.toNat = 0 ∨ v.toNat = 2047 →
      BitVec.ofNat 11 (e + 1075).toNat ≠ v := by
    rintro v hv rfl
    omega
  have hplaces : ((e + 1075).toNat : Int) - ((1023 : Int) + 52) = e := by omega
  change UnpackedFloat.unpack Format.binary64 (UnpackedFloat.pack Format.binary64 _) = _
  rw [pack_eq hm he hle, UnpackedFloat.unpack]
  simp only [unpackMantissa_packComponents, unpackExponent_packComponents,
    unpackSign_packComponents, if_neg (hother (-1#11) (.inr rfl)), if_neg (hother 0#11 (.inl rfl)),
    hexponent, implicit_append hm]
  congr 1
  cases σ <;> rfl

theorem ofBits_normal {b f : Nat} (negative : Bool) (hb : 0 < b) (hlt : b < 2047)
    (hf : f < 2 ^ 52) : Binary64.ofBits (negative.toNat * 2 ^ 63 + (b * 2 ^ 52 + f)) =
      .finite negative (2 ^ 52 + f) ((b : Int) - 1075) := by
  have hbit : negative.toNat < 2 := negative.toNat_lt
  have hsign : ((negative.toNat * 2 ^ 63 + (b * 2 ^ 52 + f)) / Nat.pow 2 63 % 2 == 1) =
      negative := by
    have hfirst : (negative.toNat * 2 ^ 63 + (b * 2 ^ 52 + f)) / Nat.pow 2 63 % 2 =
        negative.toNat := by
      rw [Nat.pow_eq]
      omega
    rw [hfirst]
    cases negative <;> rfl
  have hexponent : (negative.toNat * 2 ^ 63 + (b * 2 ^ 52 + f)) / Nat.pow 2 52 % Nat.pow 2 11 =
      b := by
    rw [Nat.pow_eq, Nat.pow_eq]
    omega
  have hfraction : (negative.toNat * 2 ^ 63 + (b * 2 ^ 52 + f)) % Nat.pow 2 52 = f := by
    rw [Nat.pow_eq]
    omega
  unfold Binary64.ofBits
  rw [hsign, hexponent, hfraction, if_neg hlt.ne, if_neg hb.ne']
  rfl

/-- **What was packed is what the bits stand for.** -/
theorem decode_pack (hm : m.log2 = 52) (he : -1074 ≤ e) (hle : e ≤ 971) (hpos) :
    decode (.ofModel (.pack (.finite σ m e hpos))) = .finite (isMinus σ) m e := by
  obtain ⟨hmle, hmlt⟩ := bounds_of_log2 hm
  have hbits : (Float.ofModel (.pack (.finite σ m e hpos))).toBits.toNat =
      (isMinus σ).toNat * 2 ^ 63 + ((e + 1075).toNat * 2 ^ 52 + (m - 2 ^ 52)) := by
    change (UnpackedFloat.pack Format.binary64 _).toNat = _
    rw [pack_eq hm he hle, packComponents_toNat, BitVec.toNat_ofNat, BitVec.toNat_ofNat]
    omega
  have hmantissa : 2 ^ 52 + (m - 2 ^ 52) = m := by omega
  have hexponent : ((e + 1075).toNat : Int) - 1075 = e := by omega
  rw [decode, hbits, ofBits_normal _ (by omega) (by omega) (by omega), hmantissa, hexponent]

end

/-! ### Whole numbers -/

section

variable {n : Nat}

/-- A whole number with zeros behind it, up to 53 binary digits. -/
def mantissaOf (n : Nat) : Nat := n * 2 ^ (52 - n.log2)

theorem log2_mantissaOf (hn : 0 < n) (hlt : n < 2 ^ 53) : (mantissaOf n).log2 = 52 := by
  have hlog : n.log2 < 53 := (Nat.log2_lt hn.ne').2 hlt
  rw [mantissaOf, log2_mul_two_pow hn]
  omega

/-- The float of a word that holds the number. -/
theorem toFloat_eq (hn : 0 < n) (hlt : n < 2 ^ 53) :
    n.toUInt64.toFloat = .ofModel (.pack (.finite .positive (mantissaOf n) (n.log2 - 52)
      (pos_of_log2 (log2_mantissaOf hn hlt)))) := by
  have hlog : n.log2 < 53 := (Nat.log2_lt hn.ne').2 hlt
  have hword : n.toUInt64.toNat = n := by
    rw [Nat.toUInt64, UInt64.toNat_ofNat']
    omega
  have hround : UnpackedFloat.normalize Format.binary64 n 0 .positive =
      .finite .positive (mantissaOf n) (n.log2 - 52) (pos_of_log2 (log2_mantissaOf hn hlt)) := by
    have hpositive : compare (n : Int) 0 = .gt := Int.compare_eq_gt.2 (by omega)
    have hshift : (0 - ((n.log2 : Int) - 52)).toNat = 52 - n.log2 := by omega
    have htarget : Format.binary64.targetExponent (totalExponent n 0) = (n.log2 : Int) - 52 := by
      rw [targetExponent_eq, totalExponent]
      omega
    have hexponent : (0 : Int) - ((52 - n.log2 : Nat) : Int) = n.log2 - 52 := by omega
    have hexact := roundWithAccuracy_exact (k := 0) (log2_mantissaOf hn hlt)
      (e := (n.log2 : Int) - 52) (by omega)
    rw [Nat.pow_zero, Nat.mul_one, Int.natCast_zero, Int.sub_zero] at hexact
    rw [UnpackedFloat.normalize, hpositive]
    simp only [UnpackedFloat.round, Int.toNat_natCast, htarget, decreaseExponent, hshift, hexponent,
      Nat.shiftLeft_eq]
    exact hexact
  rw [UInt64.toFloat, Float.Model.ofUInt64, UnpackedFloat.ofUInt64, hword, UnpackedFloat.ofNat,
    UnpackedFloat.ofInt, hround]

/-- The float that the number is read as: that of the word, multiplied by one. -/
theorem ofNat_eq (hn : 0 < n) (hlt : n < 2 ^ 53) :
    Float.ofNat n = .ofModel (.pack (.finite .positive (mantissaOf n) (n.log2 - 52)
      (pos_of_log2 (log2_mantissaOf hn hlt)))) := by
  have hlog : n.log2 < 53 := (Nat.log2_lt hn.ne').2 hlt
  have hone : (Float.ofBits 0x3FF0000000000000).toModel.unpack =
      .finite .positive (2 ^ 52) (-52) (by decide) := rfl
  have hproduct : UnpackedFloat.mul Format.binary64
      (.finite .positive (mantissaOf n) (n.log2 - 52) (pos_of_log2 (log2_mantissaOf hn hlt)))
      (.finite .positive (2 ^ 52) (-52) (by decide)) =
      .finite .positive (mantissaOf n) (n.log2 - 52) (pos_of_log2 (log2_mantissaOf hn hlt)) :=
    roundWithAccuracy_exact (k := 52) (log2_mantissaOf hn hlt) (by omega)
  change Float.ofScientific n false 0 = _
  rw [Float.ofScientific, dif_pos ⟨hlt, by decide⟩]
  change Float.ofModel (.pack (UnpackedFloat.mul Format.binary64 n.toUInt64.toFloat.toModel.unpack
    (Float.ofBits 0x3FF0000000000000).toModel.unpack)) = _
  rw [toFloat_eq hn hlt, unpack_pack (log2_mantissaOf hn hlt) (by omega) (by omega), hone, hproduct]

/-- **A whole number is a float exactly.** -/
theorem decode_ofNat (hn : 0 < n) (hlt : n < 2 ^ 53) :
    decode (Float.ofNat n) = .finite false (mantissaOf n) (n.log2 - 52) := by
  have hlog : n.log2 < 53 := (Nat.log2_lt hn.ne').2 hlt
  rw [ofNat_eq hn hlt, decode_pack (log2_mantissaOf hn hlt) (by omega) (by omega), isMinus]

/-- So is one below zero. -/
theorem decode_neg_ofNat (hn : 0 < n) (hlt : n < 2 ^ 53) :
    decode (Float.ofNat n).neg = .finite true (mantissaOf n) (n.log2 - 52) := by
  have hlog : n.log2 < 53 := (Nat.log2_lt hn.ne').2 hlt
  have hneg : (Float.ofNat n).neg = .ofModel (.pack (.finite .negative (mantissaOf n)
      (n.log2 - 52) (pos_of_log2 (log2_mantissaOf hn hlt)))) := by
    rw [ofNat_eq hn hlt]
    show Float.ofModel (.pack (UnpackedFloat.neg (Float.Model.pack _).unpack)) = _
    rw [unpack_pack (log2_mantissaOf hn hlt) (by omega) (by omega)]
    rfl
  rw [hneg, decode_pack (log2_mantissaOf hn hlt) (by omega) (by omega), isMinus]

theorem mantissaOf_whole (hn : 0 < n) (hlt : n < 2 ^ 53) :
    isWhole (mantissaOf n) (n.log2 - 52) = true ∧ wholePart (mantissaOf n) (n.log2 - 52) = n := by
  have hlog : n.log2 < 53 := (Nat.log2_lt hn.ne').2 hlt
  have hzeros : (-((n.log2 : Int) - 52)).toNat = 52 - n.log2 := by omega
  unfold isWhole wholePart mantissaOf
  rw [hzeros, Nat.pow_eq, Nat.mul_mod_left, Nat.mul_div_cancel _ (Nat.two_pow_pos _)]
  refine ⟨Bool.or_true _, ?_⟩
  split
  · next hnone =>
    -- there are 53 digits, and no zero was put behind them
    have hall : n.log2 = 52 := by omega
    have hone : ((52 : Nat) - 52 : Int).toNat = 0 := rfl
    rw [hall, hone, Nat.sub_self, Nat.pow_eq, Nat.pow_zero, Nat.mul_one, Nat.mul_one]
  · rfl

/-- **The text of a whole number is its digits.** -/
theorem text_ofNat (hlt : n < 2 ^ 53) : text (Float.ofNat n) = digitsText n := by
  rcases Nat.eq_zero_or_pos n with rfl | hn
  · decide +kernel
  · obtain ⟨hwhole, hpart⟩ := mantissaOf_whole hn hlt
    have hmantissa : mantissaOf n ≠ 0 := (pos_of_log2 (log2_mantissaOf hn hlt)).ne'
    have hsmall : n < Nat.pow 10 21 := Nat.lt_trans hlt (by decide)
    unfold text
    simp only [decode_ofNat hn hlt, hwhole, hpart, if_neg hmantissa, hsmall]
    rfl

/-! ### Signs -/

/-- Whether a number carries no minus sign. -/
def isPlain : UnpackedFloat → Bool
  | .infinity σ | .zero σ | .finite σ _ _ _ => !isMinus σ
  | .notANumber => true

/-- Without a minus sign the first bit is not set. -/
theorem pack_lt {u : UnpackedFloat} (hu : isPlain u = true) :
    (UnpackedFloat.pack Format.binary64 u).toNat < 2 ^ 63 := by
  have hcomponents : ∀ σ (b : BitVec 11) (f : BitVec 52), isMinus σ = false →
      (packComponents Format.binary64 σ b f).toNat < 2 ^ 63 := by
    intro σ b f hσ
    have hb := b.isLt
    have hf := f.isLt
    rw [packComponents_toNat, hσ, Bool.toNat_false]
    omega
  cases u with
  | notANumber => decide
  | infinity σ => exact hcomponents σ _ _ (by simpa [isPlain] using hu)
  | zero σ => exact hcomponents σ _ _ (by simpa [isPlain] using hu)
  | finite σ m e hpos =>
    have hσ : isMinus σ = false := by simpa [isPlain] using hu
    simp only [UnpackedFloat.pack]
    split
    · exact hcomponents σ _ _ hσ
    · split <;> exact hcomponents σ _ _ hσ

theorem isPlain_roundWithAccuracy (f : Format) (m : Nat) (e : Int) (a : Accuracy) :
    isPlain (roundWithAccuracy f .positive m e a) = true := by
  simp only [roundWithAccuracy]
  split <;> rfl

theorem isPlain_mul (f : Format) {m₁ m₂ : Nat} (e₁ e₂ : Int) (h₁ : 0 < m₁) (h₂ : 0 < m₂) :
    isPlain (UnpackedFloat.mul f (.finite .positive m₁ e₁ h₁) (.finite .positive m₂ e₂ h₂)) = true :=
  isPlain_roundWithAccuracy f _ _ _

/-- The digits of a whole number are read without a minus sign, however many there are. -/
theorem isPlain_ofScientific (f : Format) (n k : Nat) :
    isPlain (UnpackedFloat.ofScientific f n k) = true := by
  rw [UnpackedFloat.ofScientific]
  split
  · rfl
  · split
    · rfl
    · rw [if_neg (by omega), if_pos (Int.natCast_nonneg k)]
      exact isPlain_mul f _ _ _ _

/-- **A whole number has no minus sign**, also where it is rounded. -/
theorem toBits_ofNat_lt (n : Nat) : (Float.ofNat n).toBits.toNat < 2 ^ 63 := by
  rcases Nat.eq_zero_or_pos n with rfl | hn
  · decide +kernel
  · by_cases hlt : n < 2 ^ 53
    · rw [ofNat_eq hn hlt]
      exact pack_lt rfl
    · have hread : Float.ofNat n =
          .ofModel (.pack (UnpackedFloat.ofScientific Format.binary64 n (0 : Nat))) := by
        change Float.ofScientific n false 0 = _
        rw [Float.ofScientific, dif_neg fun h => hlt h.1]
        rfl
      rw [hread]
      exact pack_lt (isPlain_ofScientific _ n 0)

/-- No whole number is the number below zero. -/
theorem ofNat_ne_neg_one (n : Nat) : Float.ofNat n ≠ -1.0 := by
  intro h
  have hbits := toBits_ofNat_lt n
  rw [h] at hbits
  exact absurd hbits (by decide +kernel)

/-! ### Reading digits -/

/-- A digit is not the beginning of a word. -/
theorem toLower_digit {c : Char} (hc : isDigit c = true) : isDigit c.toLower = true := by
  obtain ⟨hlow, hhigh⟩ := isDigit_iff.1 hc
  have hsame : c.toLower = c := by
    unfold Char.toLower
    rw [dif_neg]
    rintro ⟨hcapital, -⟩
    have hcapital : 'A'.toNat ≤ c.toNat := hcapital
    have hlast : '9'.toNat < 'A'.toNat := by decide
    omega
  rwa [hsame]

theorem read?_toDigits (n : Nat) : read? (Nat.toDigits 10 n) = some (ofDecimal false n 0) := by
  have hdigits := toDigits_digits n
  have hunsigned : unsigned? (Nat.toDigits 10 n) = some (n, 0) := by
    have hne : (Nat.toDigits 10 n).isEmpty = false := List.isEmpty_eq_false_iff.2 hdigits.1
    unfold unsigned?
    rw [takeDigits_all hdigits]
    simp [hne, exponent?, digitsValue_toDigits]
  -- it is none of the words that stand for numbers, since it begins with a digit
  have hword : ∀ w : String, w.toList.head?.any isDigit = false →
      (Nat.toDigits 10 n).map Char.toLower ≠ w.toList := by
    intro w hw h
    rw [← h] at hw
    obtain ⟨d, ds, hds⟩ := List.exists_cons_of_ne_nil hdigits.1
    have hlower := toLower_digit (hdigits.2 d (hds ▸ List.mem_cons_self ..))
    rw [hds, List.map_cons, List.head?_cons, Option.any_some, hlower] at hw
    cases hw
  have hbody := takeSign_digits hdigits []
  rw [List.append_nil] at hbody
  unfold read?
  rw [hbody]
  simp only [Bool.false_eq_true, if_false, hunsigned]
  rw [if_neg (not_or.2 ⟨hword "inf" (by decide), hword "infinity" (by decide)⟩),
    if_neg (hword "nan" (by decide))]
  rfl

theorem ofDecimal_whole (n : Nat) : ofDecimal false n 0 = Float.ofNat n := by
  rcases Nat.eq_zero_or_pos n with rfl | hn
  · decide +kernel
  · unfold ofDecimal
    simp only [if_neg hn.ne']
    rw [if_neg (by decide), if_neg (by omega)]
    rfl

/-- **Digits without a zero before them are the text of the number that is read,** below `2 ^ 53`. -/
theorem text_of_read_toDigits (hlt : n < 2 ^ 53) :
    ∃ x, read? (Nat.toDigits 10 n) = some x ∧ text x = String.ofList (Nat.toDigits 10 n) :=
  ⟨_, read?_toDigits n, by rw [ofDecimal_whole, text_ofNat hlt, digitsText]⟩

end

/-! ### What texts are made of -/

/-- A digit, a sign, a point, or a letter of the words for what is no finite number. -/
def inText (c : Char) : Bool := isDigit c || "-.NaNInfinity".toList.contains c

theorem inText_word {w : String} (hw : w ∈ ["-", "0", "NaN", "Infinity"]) :
    ∀ c ∈ w.toList, inText c = true := by
  have hall : ∀ w ∈ ["-", "0", "NaN", "Infinity"], w.toList.all inText = true := by decide
  exact List.all_eq_true.1 (hall w hw)

theorem inText_toDigits {n : Nat} {c : Char} (hc : c ∈ Nat.toDigits 10 n) : inText c = true := by
  rw [inText, (toDigits_digits n).2 c hc, Bool.true_or]

theorem inText_zeros {k : Nat} {c : Char} (hc : c ∈ zeros k) : inText c = true := by
  obtain rfl := List.eq_of_mem_replicate hc
  decide

theorem inText_positional (d : Decimal) : ∀ c ∈ d.positional.toList, inText c = true := by
  intro c hc
  unfold Decimal.positional at hc
  dsimp only at hc
  split_ifs at hc
  · rw [String.toList_ofList] at hc
    rcases List.mem_append.1 hc with hc | hc
    · exact inText_toDigits hc
    · exact inText_zeros hc
  · rw [String.toList_ofList] at hc
    rcases List.mem_append.1 hc with hc | hc
    · exact inText_toDigits (List.mem_of_mem_take hc)
    · rcases List.mem_cons.1 hc with rfl | hc
      · decide
      · exact inText_toDigits (List.mem_of_mem_drop hc)
  · rw [String.toList_ofList] at hc
    rcases List.mem_append.1 hc with hc | hc
    · rcases List.mem_cons.1 hc with rfl | hc
      · decide
      · rcases List.mem_cons.1 hc with rfl | hc
        · decide
        · exact inText_zeros hc
    · exact inText_toDigits hc

theorem inText_signed {negative : Bool} {s : String} (hs : ∀ c ∈ s.toList, inText c = true) :
    ∀ c ∈ (signed negative s).toList, inText c = true := by
  intro c hc
  cases negative with
  | false => exact hs c hc
  | true =>
    rw [signed, if_pos rfl, String.toList_append] at hc
    rcases List.mem_append.1 hc with hc | hc
    · exact inText_word (w := "-") (by decide) c hc
    · exact hs c hc

theorem inText_plain (m : Nat) (e : Int) : ∀ c ∈ (plain m e).toList, inText c = true := by
  unfold plain
  split
  · exact inText_word (by decide)
  · exact inText_positional _

theorem inText_text (x : Float) : ∀ c ∈ (text x).toList, inText c = true := by
  unfold text
  split
  · exact inText_word (by decide)
  · exact inText_signed (inText_word (by decide))
  · split
    · exact inText_word (by decide)
    · split
      · refine inText_signed fun c hc => ?_
        rw [digitsText, String.toList_ofList] at hc
        exact inText_toDigits hc
      · exact inText_signed (inText_plain _ _)

/-- **No text of a number has an exponent.** -/
theorem text_without_exponent (x : Float) : 'e' ∉ (text x).toList ∧ 'E' ∉ (text x).toList := by
  have hsmall : inText 'e' = false := by decide
  have hlarge : inText 'E' = false := by decide
  exact ⟨fun h => Bool.false_ne_true (hsmall.symm.trans (inText_text x _ h)),
    fun h => Bool.false_ne_true (hlarge.symm.trans (inText_text x _ h))⟩

end ScriptModules.Number
