import RuleInduction.Proofs.FloatRounding

namespace RuleInduction.FloatArithmetic

open Binary64 FloatValue FloatRounding
open Float.Model (Format UnpackedFloat totalExponent)
open Float.Model.UnpackedFloat (Sign decreaseExponent)

section Signs

variable (s t : Sign) (p q : ℚ)

theorem signed_neg : signed (-s) q = -signed s q := by
  cases s with
  | negative => exact (neg_neg q).symm
  | positive => rfl

theorem signed_mul : signed (s * t) (p * q) = signed s p * signed t q := by
  cases s <;> cases t
  · exact (neg_mul_neg p q).symm
  · exact (neg_mul p q).symm
  · exact (mul_neg p q).symm
  · rfl

theorem signed_div : signed (s / t) (p / q) = signed s p / signed t q := by
  cases s <;> cases t
  · exact (neg_div_neg_eq p q).symm
  · exact (neg_div q p).symm
  · exact (div_neg p).symm
  · rfl

-- Bringing a mantissa to a smaller exponent keeps the value.
theorem apply_decreaseExponent (m : ℕ) {e f : ℤ} (h : f ≤ e) :
    ((s.apply (decreaseExponent m e f).1 : ℤ) : ℚ) * 2 ^ f = signed s (m * 2 ^ e) := by
  have hexponent : (decreaseExponent m e f).2 = f := by
    rw [decreaseExponent, Int.toNat_of_nonneg (Int.sub_nonneg.2 h), sub_sub_cancel]
  have hvalue := decreaseExponent_value m e f
  rw [hexponent] at hvalue
  cases s with
  | negative => rw [Sign.apply, Int.cast_neg, Int.cast_natCast, neg_mul, hvalue, signed]
  | positive => rw [Sign.apply, Int.cast_natCast, hvalue, signed]

end Signs

variable {x y : Float}

theorem unpack_of_isFinite (h : x.isFinite = true) :
    (x.toModel.unpack = .zero (sign x) ∧ toRat x = 0) ∨
    ∃ (v : Binary64.Dyadic) (hv : Legal v),
      x.toModel.unpack = .finite (sign x) v.mantissa v.exponent hv.pos ∧
        toRat x = signed (sign x) v.toRat := by
  rcases Nat.eq_zero_or_pos (Decimal.unsigned x) with hzero | hpos
  · refine Or.inl ⟨unpack_zero hzero, ?_⟩
    rw [toRat, hzero, toRat_value_zero]
    cases sign x with
    | negative => exact neg_zero
    | positive => rfl
  · exact Or.inr ⟨_, legal_value hpos, unpack_finite hpos (Decimal.isFinite_iff.1 h), rfl⟩

theorem ordinal_packed_signed (s : Sign) {v : Binary64.Dyadic} (hv : Legal v) :
    ordinal (packed (.finite s v.mantissa v.exponent hv.pos)) = rounded (signed s v.toRat) := by
  rw [ordinal_packed_finite s hv, rounded_signed hv.toRat_pos.le]

section Quotient

variable {v w : Binary64.Dyadic} (hv : Legal v) (hw : Legal w)

include hw

theorem quotient_represents {e : ℤ} (he : e ≤ v.exponent - w.exponent) :
    let n := v.mantissa <<< (v.exponent - w.exponent - e).toNat
    Represents (.ofMantissaAndAccuracy (n / w.mantissa)
      (UnpackedFloat.accuracyOfFraction (n % w.mantissa) w.mantissa))
      (v.toRat / w.toRat / 2 ^ e) := by
  intro n
  have hw' : (w.mantissa : ℚ) ≠ 0 := Nat.cast_ne_zero.2 hw.pos.ne'
  have hquotient : v.toRat / w.toRat / 2 ^ e = (n : ℚ) / w.mantissa := by
    have hn : (n : ℚ) = v.mantissa * 2 ^ (v.exponent - w.exponent - e) := by
      have hshift : n = v.mantissa * 2 ^ (v.exponent - w.exponent - e).toNat :=
        Nat.shiftLeft_eq _ _
      rw [hshift, Nat.cast_mul, Nat.cast_pow, Nat.cast_ofNat, ← zpow_natCast,
        Int.toNat_of_nonneg (by omega)]
    rw [hn, zpow_sub₀ two_ne_zero, zpow_sub₀ two_ne_zero, Binary64.Dyadic.toRat,
      Binary64.Dyadic.toRat]
    field_simp
  rw [hquotient]
  exact .fraction n hw.pos

include hv

theorem quotient_exponent_le :
    Format.binary64.targetExponent (totalExponent v.mantissa v.exponent -
      totalExponent w.mantissa w.exponent) ≤ unit (v.toRat / w.toRat) := by
  have hlower : (2 : ℚ) ^ ((v.mantissa.log2 : ℤ) + v.exponent) ≤ v.toRat := by
    rw [zpow_add₀ two_ne_zero, zpow_natCast]
    exact mul_le_mul_of_nonneg_right (by exact_mod_cast Nat.log2_self_le hv.pos.ne')
      (zpow_pos two_pos _).le
  have hupper : w.toRat ≤ (2 : ℚ) ^ ((w.mantissa.log2 + 1 : ℕ) + w.exponent) := by
    rw [zpow_add₀ two_ne_zero, zpow_natCast]
    exact mul_le_mul_of_nonneg_right (by exact_mod_cast Nat.lt_log2_self.le)
      (zpow_pos two_pos _).le
  refine max_le (le_unit_of_le ?_) (le_unit _)
  calc (2 : ℚ) ^ 52 * 2 ^ (totalExponent v.mantissa v.exponent -
          totalExponent w.mantissa w.exponent - Format.binary64.mantissaBits)
      = 2 ^ ((v.mantissa.log2 : ℤ) + v.exponent) / 2 ^ ((w.mantissa.log2 + 1 : ℕ) + w.exponent) := by
        rw [← zpow_natCast, ← zpow_add₀ two_ne_zero, ← zpow_sub₀ two_ne_zero]
        congr 1
        change ((52 : ℕ) : ℤ) + ((v.mantissa.log2 : ℤ) + 1 + v.exponent -
          ((w.mantissa.log2 : ℤ) + 1 + w.exponent) - 53) = _
        omega
    _ ≤ v.toRat / w.toRat := div_le_div₀ hv.toRat_pos.le hlower hw.toRat_pos hupper

end Quotient

section Operations

variable (hx : x.isFinite = true) (hy : y.isFinite = true)

include hx hy

theorem ordinal_add : ordinal (x + y) = rounded (toRat x + toRat y) := by
  change ordinal (packed (.add .binary64 x.toModel.unpack y.toModel.unpack)) = _
  rcases unpack_of_isFinite hx with ⟨hxu, hxq⟩ | ⟨v, hv, hxu, hxq⟩ <;>
    rcases unpack_of_isFinite hy with ⟨hyu, hyq⟩ | ⟨w, hw, hyu, hyq⟩ <;>
      rw [hxu, hyu, hxq, hyq]
  · rw [add_zero, rounded_zero]
    simp only [UnpackedFloat.add]
    split <;> exact ordinal_packed_zero _
  · rw [zero_add, ← ordinal_packed_signed _ hw]
    rfl
  · rw [add_zero, ← ordinal_packed_signed _ hv]
    rfl
  · simp only [UnpackedFloat.add]
    rw [ordinal_normalize, Int.cast_add, add_mul, apply_decreaseExponent _ _ (min_le_left _ _),
      apply_decreaseExponent _ _ (min_le_right _ _)]
    rfl

theorem ordinal_sub : ordinal (x - y) = rounded (toRat x - toRat y) := by
  change ordinal (packed (.sub .binary64 x.toModel.unpack y.toModel.unpack)) = _
  rcases unpack_of_isFinite hx with ⟨hxu, hxq⟩ | ⟨v, hv, hxu, hxq⟩ <;>
    rcases unpack_of_isFinite hy with ⟨hyu, hyq⟩ | ⟨w, hw, hyu, hyq⟩ <;>
      rw [hxu, hyu, hxq, hyq]
  · rw [sub_zero, rounded_zero]
    simp only [UnpackedFloat.sub]
    split <;> exact ordinal_packed_zero _
  · rw [zero_sub, ← signed_neg, ← ordinal_packed_signed _ hw]
    rfl
  · rw [sub_zero, ← ordinal_packed_signed _ hv]
    rfl
  · simp only [UnpackedFloat.sub]
    rw [ordinal_normalize, Int.cast_sub, sub_mul, apply_decreaseExponent _ _ (min_le_left _ _),
      apply_decreaseExponent _ _ (min_le_right _ _)]
    rfl

theorem ordinal_mul : ordinal (x * y) = rounded (toRat x * toRat y) := by
  change ordinal (packed (.mul .binary64 x.toModel.unpack y.toModel.unpack)) = _
  rcases unpack_of_isFinite hx with ⟨hxu, hxq⟩ | ⟨v, hv, hxu, hxq⟩ <;>
    rcases unpack_of_isFinite hy with ⟨hyu, hyq⟩ | ⟨w, hw, hyu, hyq⟩ <;>
      rw [hxu, hyu, hxq, hyq]
  · rw [zero_mul, rounded_zero]
    exact ordinal_packed_zero _
  · rw [zero_mul, rounded_zero]
    exact ordinal_packed_zero _
  · rw [mul_zero, rounded_zero]
    exact ordinal_packed_zero _
  · have hpos := mul_pos hv.toRat_pos hw.toRat_pos
    simp only [UnpackedFloat.mul]
    rw [← signed_mul, rounded_signed hpos.le]
    refine ordinal_roundWithAccuracy_exact _ hpos ?_ (hv.add_le_unit hw)
    rw [Binary64.Dyadic.toRat, Binary64.Dyadic.toRat, zpow_add₀ two_ne_zero, Nat.cast_mul]
    ring

theorem ordinal_div (hne : toRat y ≠ 0) : ordinal (x / y) = rounded (toRat x / toRat y) := by
  change ordinal (packed (.div .binary64 x.toModel.unpack y.toModel.unpack)) = _
  rcases unpack_of_isFinite hy with ⟨hyu, hyq⟩ | ⟨w, hw, hyu, hyq⟩
  · exact absurd hyq hne
  · rcases unpack_of_isFinite hx with ⟨hxu, hxq⟩ | ⟨v, hv, hxu, hxq⟩ <;> rw [hxu, hyu, hxq, hyq]
    · rw [zero_div, rounded_zero]
      exact ordinal_packed_zero _
    · have hpos := div_pos hv.toRat_pos hw.toRat_pos
      rw [← signed_div, rounded_signed hpos.le]
      exact ordinal_roundWithAccuracy _ hpos (quotient_represents hw (min_le_left _ _))
        ((min_le_right _ _).trans (quotient_exponent_le hv hw))

end Operations

end RuleInduction.FloatArithmetic
