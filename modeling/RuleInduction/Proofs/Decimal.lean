import RuleInduction.Decimal
import RuleInduction.Proofs.Binary64

namespace RuleInduction.Decimal

open Binary64

def toRat (d : Decimal) : ℚ :=
  d.digits * 10 ^ d.exponent

theorem ratio_eq (d : Decimal) : (d.ratio.1 : ℚ) / d.ratio.2 = d.toRat := by
  simp only [ratio, toRat, zpow_eq_div (by norm_num : (10 : ℚ) ≠ 0), Nat.pow_eq, Nat.cast_mul,
    Nat.cast_pow, Nat.cast_ofNat]
  field_simp

theorem lt_pow_digitCount (n : ℕ) : n < 10 ^ digitCount n :=
  (Nat.length_toDigits_le_iff (by decide) Nat.length_toDigits_pos).1 (Nat.le_refl _)

theorem pow_digitCount_le {n : ℕ} (h : 0 < n) : 10 ^ (digitCount n - 1) ≤ n := by
  rcases Nat.eq_zero_or_pos (digitCount n - 1) with hone | hmore
  · rwa [hone]
  · by_contra hlt
    have := (Nat.length_toDigits_le_iff (by decide) hmore).2 (Nat.not_le.1 hlt)
    rw [digitCount] at *
    omega

theorem toRat_lt (d : Decimal) : d.toRat < 10 ^ (digitCount d.digits + d.exponent) := by
  rw [toRat, zpow_add₀ (by norm_num), zpow_natCast]
  exact mul_lt_mul_of_pos_right (by exact_mod_cast lt_pow_digitCount _) (zpow_pos (by norm_num) _)

theorem le_toRat {d : Decimal} (h : 0 < d.digits) :
    10 ^ (digitCount d.digits + d.exponent - 1) ≤ d.toRat := by
  have hcount : 0 < digitCount d.digits := Nat.length_toDigits_pos
  have hexp : (digitCount d.digits + d.exponent - 1 : ℤ) =
      (digitCount d.digits - 1 : ℕ) + d.exponent := by omega
  rw [toRat, hexp, zpow_add₀ (by norm_num), zpow_natCast]
  exact mul_le_mul_of_nonneg_right (by exact_mod_cast pow_digitCount_le h)
    (zpow_pos (by norm_num) _).le

theorem bits_eq_ofRat (d : Decimal) : d.bits = ofRat d.toRat := by
  simp only [bits]
  split
  · next hzero => simp [toRat, hzero, ofRat]
  · next hdigits =>
      have hpos : 0 < d.digits := Nat.pos_of_ne_zero hdigits
      split
      · next hlarge =>
          refine (ofRat_of_ge ?_).symm
          have hpow : (2 ^ 1024 : ℕ) ≤ 10 ^ 310 := by decide +kernel
          calc (2 : ℚ) ^ 1024 ≤ 10 ^ (310 : ℤ) := by
                rw [← Nat.cast_ofNat (n := 310), zpow_natCast]
                simpa only [Nat.cast_pow, Nat.cast_ofNat] using (Nat.cast_le (α := ℚ)).2 hpow
            _ ≤ 10 ^ (digitCount d.digits + d.exponent - 1) :=
                zpow_le_zpow_right₀ (by norm_num) (by omega)
            _ ≤ d.toRat := le_toRat hpos
      · split
        · next hsmall =>
            have hvalue : 0 < d.toRat := mul_pos (Nat.cast_pos.2 hpos) (zpow_pos (by norm_num) _)
            have hpow : (2 ^ 1075 : ℕ) ≤ 10 ^ 330 := by decide +kernel
            refine (ofRat_of_lt hvalue ?_).symm
            calc d.toRat < 10 ^ (digitCount d.digits + d.exponent) := toRat_lt d
              _ ≤ 10 ^ (-330 : ℤ) := zpow_le_zpow_right₀ (by norm_num) hsmall.le
              _ ≤ 2 ^ (-1075 : ℤ) := by
                  rw [zpow_neg, zpow_neg]
                  refine inv_anti₀ (zpow_pos two_pos _) ?_
                  rw [← Nat.cast_ofNat (n := 1075), ← Nat.cast_ofNat (n := 330), zpow_natCast,
                    zpow_natCast]
                  simpa only [Nat.cast_pow, Nat.cast_ofNat] using (Nat.cast_le (α := ℚ)).2 hpow
        · have hden : d.ratio.2 ≠ 0 := (Nat.pow_pos (by decide)).ne'
          rw [nearest_eq_ofRat _ hden, ratio_eq]

theorem toRat_exact (bits : ℕ) : (exact bits).toRat = (value bits).toRat := by
  simp only [exact, toRat, Binary64.Dyadic.toRat]
  generalize value bits = v
  have hten : (10 : ℚ) ^ min v.exponent 0 =
      1 / (2 ^ (-v.exponent).toNat * 5 ^ (-v.exponent).toNat) := by
    have hplus : (min v.exponent 0).toNat = 0 := by omega
    have hminus : (-min v.exponent 0).toNat = (-v.exponent).toNat := by omega
    rw [zpow_eq_div (by norm_num), hplus, hminus, pow_zero, ← mul_pow]
    norm_num
  rw [hten, zpow_eq_div two_ne_zero]
  simp only [Nat.pow_eq, Nat.cast_mul, Nat.cast_pow, Nat.cast_ofNat]
  field_simp

theorem bits_exact {bits : ℕ} (h : bits < infinityBits) : (exact bits).bits = bits := by
  rw [bits_eq_ofRat, toRat_exact, ofRat_value h]

end RuleInduction.Decimal
