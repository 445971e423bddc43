import RuleInduction.Proofs.FloatCount
import RuleInduction.Settings

namespace RuleInduction.FloatWhole

open FloatValue FloatRounding FloatArithmetic FloatCount
open Float.Model (UnpackedFloat)
open Float.Model.UnpackedFloat (decreaseExponent shiftToExponent)

variable {x : Float}

-- First the exponent is brought down to zero, then up: at most one of the two does anything.
theorem roundToInt_positive (m : ℕ) (e : ℤ) :
    UnpackedFloat.roundToInt .positive m e = ⌊(m * 2 ^ e : ℚ)⌋₊ := by
  have hle : (decreaseExponent m e 0).2 ≤ 0 := by
    simp only [decreaseExponent]
    omega
  simp only [UnpackedFloat.roundToInt, shiftToExponent, ← decreaseExponent_value m e 0]
  generalize decreaseExponent m e 0 = d at hle ⊢
  have hshift := (Represents.exact d.1).shiftRight (0 - d.2).toNat
  have hpow : (d.1 : ℚ) / 2 ^ (0 - d.2).toNat = d.1 * 2 ^ d.2 := by
    rw [div_eq_mul_inv, ← zpow_natCast, ← zpow_neg, Int.toNat_of_nonneg (by omega), zero_sub,
      neg_neg]
  rw [← hpow, hshift.floor_eq]
  rfl

theorem wholeBelow_eq_floor (hx : x.isFinite = true) (hnonneg : 0 ≤ toRat x)
    (hlt : toRat x < 2 ^ 64) : wholeBelow x = ⌊toRat x⌋₊ := by
  change (UInt64.ofNatClamp (x.toModel.unpack.toInt 0 (UInt64.size - 1)).toNat).toNat = _
  rcases unpack_of_isFinite hx with ⟨hu, hq⟩ | ⟨v, hv, hu, hq⟩
  · rw [hu, hq, Nat.floor_zero]
    rfl
  · cases hs : sign x with
    | negative =>
        rw [hq, hs, signed] at hnonneg
        linarith [hv.toRat_pos]
    | positive =>
        rw [hs, signed] at hq
        have hfloor : ⌊toRat x⌋₊ < UInt64.size := (Nat.floor_lt hnonneg).2 hlt
        rw [hu, hs, UnpackedFloat.toInt, roundToInt_positive, Int.toNat_natCast]
        rw [hq] at hfloor ⊢
        exact UInt64.toNat_ofNatClamp_of_lt hfloor

theorem wholeAbove_eq_ceil (hx : x.isFinite = true) (hnonneg : 0 ≤ toRat x)
    (hle : toRat x ≤ 2 ^ 53) : wholeAbove x = ⌈toRat x⌉₊ := by
  have hfloor : ⌊toRat x⌋₊ ≤ 2 ^ 53 := by
    exact_mod_cast (Nat.floor_le hnonneg).trans hle
  have hcount := hasValue_ofNat hfloor
  have hceil := Nat.ceil_le_floor_add_one (toRat x)
  simp only [wholeAbove, wholeBelow_eq_floor hx hnonneg (hle.trans_lt (by norm_num)),
    lt_iff_toRat hcount.finite hx, hcount.toRat_eq]
  split
  · next hlt => exact (le_antisymm hceil (Nat.lt_ceil.2 hlt)).symm
  · next hge => exact le_antisymm (Nat.floor_le_ceil _) (Nat.ceil_le.2 (not_lt.1 hge))

end RuleInduction.FloatWhole
