import Mathlib.Algebra.Order.Floor.Semifield
import Mathlib.Data.Int.Log
import Mathlib.Data.Rat.Floor
import Mathlib.Tactic.FieldSimp
import Mathlib.Tactic.Linarith
import RuleInduction.Binary64

namespace RuleInduction.Binary64

def roundWhole (x : ℚ) : ℕ :=
  let whole := ⌊x⌋₊
  if 2 * (x - whole) < 1 then whole
  else if 1 < 2 * (x - whole) then whole + 1
  else whole + whole % 2

def unit (x : ℚ) : ℤ :=
  max (Int.log 2 x - 52) (-1074)

def ofRat (x : ℚ) : ℕ :=
  if x = 0 then 0
  else min ((unit x + 1074).toNat * 2 ^ 52 + roundWhole (x / 2 ^ unit x)) infinityBits

theorem zpow_eq_div {b : ℚ} (hb : b ≠ 0) (e : ℤ) : b ^ e = b ^ e.toNat / b ^ (-e).toNat := by
  rw [← zpow_natCast, ← zpow_natCast, ← zpow_sub₀ hb, Int.toNat_sub_toNat_neg]

theorem inUnits_ratio (num : ℕ) {den : ℕ} (e : ℤ) :
    ((inUnits num den e).1 : ℚ) / (inUnits num den e).2 = num / den / 2 ^ e := by
  simp only [inUnits, zpow_eq_div two_ne_zero, Nat.pow_eq, Nat.cast_mul, Nat.cast_pow,
    Nat.cast_ofNat]
  field_simp

theorem inUnits_pos {num den : ℕ} (hden : 0 < den) (e : ℤ) : 0 < (inUnits num den e).2 :=
  Nat.mul_pos hden (Nat.pow_pos (by decide))

theorem roundHalfEven_eq (num : ℕ) {den : ℕ} (hden : 0 < den) :
    roundHalfEven num den = roundWhole (num / den) := by
  have hden' : (0 : ℚ) < den := Nat.cast_pos.2 hden
  have hfraction : 2 * ((num : ℚ) / den - (num / den : ℕ)) = (2 * (num % den) : ℕ) / den := by
    have hsplit : (num : ℚ) = den * (num / den : ℕ) + (num % den : ℕ) := by
      exact_mod_cast (Nat.div_add_mod num den).symm
    rw [Nat.cast_mul, eq_div_iff hden'.ne', mul_assoc, sub_mul, div_mul_cancel₀ _ hden'.ne']
    linarith
  simp only [roundHalfEven, roundWhole, Nat.floor_div_eq_div, hfraction, div_lt_one hden',
    one_lt_div hden', Nat.cast_lt]

-- The quotient of two numbers lies within a factor of two of that of their leading powers of two.
theorem log_ratio {num den : ℕ} (hnum : num ≠ 0) (hden : den ≠ 0) :
    let near : ℤ := (num.log2 : ℤ) - den.log2
    Int.log 2 (num / den : ℚ) = if (num / den : ℚ) < 2 ^ near then near - 1 else near := by
  intro near
  have hpos : (0 : ℚ) < num / den :=
    div_pos (Nat.cast_pos.2 (Nat.pos_of_ne_zero hnum)) (Nat.cast_pos.2 (Nat.pos_of_ne_zero hden))
  have hden' : (0 : ℚ) < den := Nat.cast_pos.2 (Nat.pos_of_ne_zero hden)
  have hupper : (num / den : ℚ) < 2 ^ (near + 1) := by
    have h1 : (num : ℚ) < 2 ^ (num.log2 + 1) := by exact_mod_cast Nat.lt_log2_self
    have h2 : (2 : ℚ) ^ den.log2 ≤ den := by exact_mod_cast Nat.log2_self_le hden
    have h3 : (2 : ℚ) ^ (near + 1) * 2 ^ den.log2 = 2 ^ (num.log2 + 1) := by
      rw [← zpow_natCast, ← zpow_natCast, ← zpow_add₀ two_ne_zero]
      congr 1
      omega
    rw [div_lt_iff₀ hden']
    calc (num : ℚ) < 2 ^ (near + 1) * 2 ^ den.log2 := h3 ▸ h1
      _ ≤ 2 ^ (near + 1) * den := mul_le_mul_of_nonneg_left h2 (zpow_pos two_pos _).le
  have hlower : (2 : ℚ) ^ (near - 1) ≤ num / den := by
    have h1 : (2 : ℚ) ^ num.log2 ≤ num := by exact_mod_cast Nat.log2_self_le hnum
    have h2 : (den : ℚ) < 2 ^ (den.log2 + 1) := by exact_mod_cast Nat.lt_log2_self
    have h3 : (2 : ℚ) ^ (near - 1) * 2 ^ (den.log2 + 1) = 2 ^ num.log2 := by
      rw [← zpow_natCast, ← zpow_natCast, ← zpow_add₀ two_ne_zero]
      congr 1
      omega
    rw [le_div_iff₀ hden']
    calc (2 : ℚ) ^ (near - 1) * den ≤ 2 ^ (near - 1) * 2 ^ (den.log2 + 1) :=
          mul_le_mul_of_nonneg_left h2.le (zpow_pos two_pos _).le
      _ ≤ num := h3 ▸ h1
  have hlt : Int.log 2 (num / den : ℚ) < near + 1 :=
    (Int.lt_zpow_iff_log_lt one_lt_two hpos).1 hupper
  have hle : near - 1 ≤ Int.log 2 (num / den : ℚ) :=
    (Int.zpow_le_iff_le_log one_lt_two hpos).1 hlower
  split
  · next h =>
      have := (Int.lt_zpow_iff_log_lt one_lt_two hpos).1 h
      omega
  · next h =>
      have := (Int.zpow_le_iff_le_log one_lt_two hpos).1 (not_lt.1 h)
      omega

theorem unitExponent_eq {num den : ℕ} (hnum : num ≠ 0) (hden : den ≠ 0) :
    unitExponent num den = unit (num / den) := by
  let near : ℤ := (num.log2 : ℤ) - den.log2
  have hscaled : 0 < (inUnits num den (near - 52)).2 := inUnits_pos (Nat.pos_of_ne_zero hden) _
  have hsmall : (inUnits num den (near - 52)).1 / (inUnits num den (near - 52)).2 < Nat.pow 2 52 ↔
      (num / den : ℚ) < 2 ^ near := by
    have hpow : (2 : ℚ) ^ near = 2 ^ 52 * 2 ^ (near - 52) := by
      rw [← zpow_natCast, ← zpow_add₀ two_ne_zero]
      congr 1
      omega
    rw [Nat.div_lt_iff_lt_mul hscaled, hpow, ← div_lt_iff₀ (zpow_pos two_pos _), ← inUnits_ratio,
      div_lt_iff₀ (Nat.cast_pos.2 hscaled)]
    exact_mod_cast Iff.rfl
  simp only [unitExponent, unit, log_ratio hnum hden]
  change max (if _ / _ < Nat.pow 2 52 then near - 52 - 1 else near - 52) (-1074) = _
  rw [if_congr hsmall rfl rfl]
  split <;> congr 1
  omega

theorem nearest_eq_ofRat (num : ℕ) {den : ℕ} (hden : den ≠ 0) :
    nearest num den = ofRat (num / den) := by
  by_cases hnum : num = 0
  · simp [nearest, ofRat, hnum]
  · have hratio : (num / den : ℚ) ≠ 0 :=
      div_ne_zero (Nat.cast_ne_zero.2 hnum) (Nat.cast_ne_zero.2 hden)
    simp only [nearest, ofRat, if_neg hnum, if_neg hratio, unitExponent_eq hnum hden]
    rw [roundHalfEven_eq _ (inUnits_pos (Nat.pos_of_ne_zero hden) _), inUnits_ratio]
    rfl

def Dyadic.toRat (v : Dyadic) : ℚ :=
  v.mantissa * 2 ^ v.exponent

theorem roundWhole_natCast (n : ℕ) : roundWhole n = n := by
  simp [roundWhole]

theorem roundWhole_le_succ_floor (x : ℚ) : roundWhole x ≤ ⌊x⌋₊ + 1 := by
  simp only [roundWhole]
  split_ifs <;> omega

theorem floor_le_roundWhole (x : ℚ) : ⌊x⌋₊ ≤ roundWhole x := by
  simp only [roundWhole]
  split_ifs <;> omega

theorem le_roundWhole {n : ℕ} {x : ℚ} (h : n ≤ x) : n ≤ roundWhole x :=
  (Nat.le_floor h).trans (floor_le_roundWhole x)

theorem roundWhole_mono {x y : ℚ} (h : x ≤ y) : roundWhole x ≤ roundWhole y := by
  rcases (Nat.floor_mono h).lt_or_eq with hlt | heq
  · calc roundWhole x ≤ ⌊x⌋₊ + 1 := roundWhole_le_succ_floor x
      _ ≤ ⌊y⌋₊ := hlt
      _ ≤ roundWhole y := floor_le_roundWhole y
  · simp only [roundWhole, heq]
    split_ifs <;> first | omega | linarith

theorem roundWhole_le {n : ℕ} {x : ℚ} (h : x ≤ n) : roundWhole x ≤ n :=
  (roundWhole_mono h).trans_eq (roundWhole_natCast n)

theorem roundWhole_eq_zero {x : ℚ} (h : 2 * x < 1) : roundWhole x = 0 := by
  have hfloor : ⌊x⌋₊ = 0 := Nat.floor_eq_zero.2 (by linarith)
  simp only [roundWhole, hfloor, Nat.cast_zero, sub_zero, if_pos h]

theorem le_unit (x : ℚ) : -1074 ≤ unit x :=
  le_max_right _ _

theorem le_unit_of_le {x : ℚ} {e : ℤ} (h : 2 ^ 52 * 2 ^ e ≤ x) : e ≤ unit x := by
  have hpos : 0 < x := (mul_pos (pow_pos two_pos _) (zpow_pos two_pos _)).trans_le h
  rw [← zpow_natCast, ← zpow_add₀ two_ne_zero] at h
  have hlog := (Int.zpow_le_iff_le_log one_lt_two hpos).1 h
  rw [unit]
  omega

theorem unit_mono {x y : ℚ} (hx : 0 < x) (h : x ≤ y) : unit x ≤ unit y :=
  max_le_max_right _ (sub_le_sub_right (Int.log_mono_right hx h) _)

theorem lt_two_pow_unit (x : ℚ) : x < 2 ^ 53 * 2 ^ unit x := by
  have hlog : Int.log 2 x + 1 ≤ (53 : ℕ) + unit x := by
    rw [unit]
    omega
  calc x < 2 ^ (Int.log 2 x + 1) := Int.lt_zpow_succ_log_self one_lt_two x
    _ ≤ 2 ^ ((53 : ℕ) + unit x) := zpow_le_zpow_right₀ one_le_two hlog
    _ = 2 ^ 53 * 2 ^ unit x := by rw [zpow_add₀ two_ne_zero, zpow_natCast]

theorem roundWhole_unit_le (x : ℚ) : roundWhole (x / 2 ^ unit x) ≤ 2 ^ 53 := by
  refine roundWhole_le ?_
  rw [div_le_iff₀ (zpow_pos two_pos _)]
  exact_mod_cast (lt_two_pow_unit x).le

theorem le_roundWhole_unit {x : ℚ} (hx : 0 < x) (h : unit x ≠ -1074) :
    2 ^ 52 ≤ roundWhole (x / 2 ^ unit x) := by
  have hunit : unit x = Int.log 2 x - 52 := by
    rw [unit] at h ⊢
    omega
  refine le_roundWhole ?_
  rw [le_div_iff₀ (zpow_pos two_pos _), hunit, Nat.cast_pow, Nat.cast_ofNat, ← zpow_natCast,
    ← zpow_add₀ two_ne_zero, Nat.cast_ofNat, add_sub_cancel]
  exact Int.zpow_log_le_self one_lt_two hx

theorem ofRat_of_ge {x : ℚ} (h : 2 ^ 1024 ≤ x) : ofRat x = infinityBits := by
  have hpos : 0 < x := (by positivity : (0 : ℚ) < 2 ^ 1024).trans_le h
  have hlog : ((1024 : ℕ) : ℤ) ≤ Int.log 2 x :=
    (Int.zpow_le_iff_le_log one_lt_two hpos).1 (by rwa [zpow_natCast])
  have hunit : 972 ≤ unit x := by
    rw [unit]
    omega
  have hmantissa := le_roundWhole_unit hpos (by omega)
  rw [ofRat, if_neg hpos.ne', min_eq_right]
  change 2047 * 2 ^ 52 ≤ _
  omega

theorem ofRat_of_lt {x : ℚ} (hpos : 0 < x) (h : x < 2 ^ (-1075 : ℤ)) : ofRat x = 0 := by
  have hlog : Int.log 2 x < -1075 := (Int.lt_zpow_iff_log_lt one_lt_two hpos).1 h
  have hunit : unit x = -1074 := by
    rw [unit]
    omega
  have hmantissa : roundWhole (x / 2 ^ unit x) = 0 := by
    refine roundWhole_eq_zero ?_
    have htwice : (2 : ℚ) * 2 ^ (-1075 : ℤ) = 2 ^ (-1074 : ℤ) := by
      rw [← zpow_one_add₀ two_ne_zero]
      rfl
    rw [hunit, mul_div_assoc', div_lt_one (zpow_pos two_pos _), ← htwice]
    exact mul_lt_mul_of_pos_left h two_pos
  rw [ofRat, if_neg hpos.ne', hmantissa, hunit]
  rfl

-- Between two units the mantissa of the smaller value is at most `2 ^ 53` and that of the larger is
-- at least `2 ^ 52`, in a unit twice as large or larger.
theorem ofRat_mono {x y : ℚ} (hx : 0 ≤ x) (h : x ≤ y) : ofRat x ≤ ofRat y := by
  rcases hx.eq_or_lt with rfl | hpos
  · rw [ofRat, if_pos rfl]
    exact Nat.zero_le _
  · rw [ofRat, ofRat, if_neg hpos.ne', if_neg (hpos.trans_le h).ne']
    refine min_le_min_right _ ?_
    rcases (unit_mono hpos h).lt_or_eq with hlt | heq
    · have hmin := le_unit x
      have hupper := roundWhole_unit_le x
      have hlower := le_roundWhole_unit (hpos.trans_le h) (by omega)
      omega
    · rw [heq]
      exact Nat.add_le_add_left
        (roundWhole_mono (div_le_div_of_nonneg_right h (zpow_pos two_pos _).le)) _

theorem ofRat_le (x : ℚ) : ofRat x ≤ infinityBits := by
  rw [ofRat]
  split
  · exact Nat.zero_le _
  · exact min_le_right _ _

/-- The mantissa of a finite float other than zero: it fills its 53 digits unless the exponent is
the least. -/
structure Legal (v : Dyadic) : Prop where
  pos : 0 < v.mantissa
  lt : v.mantissa < 2 ^ 53
  min_le : -1074 ≤ v.exponent
  full : v.exponent ≠ -1074 → 2 ^ 52 ≤ v.mantissa

theorem Legal.toRat_pos {v : Dyadic} (h : Legal v) : 0 < v.toRat :=
  mul_pos (Nat.cast_pos.2 h.pos) (zpow_pos two_pos _)

-- Products are counted in units that need not be made smaller.
theorem Legal.add_le_unit {v w : Dyadic} (hv : Legal v) (hw : Legal w) :
    v.exponent + w.exponent ≤ unit (v.toRat * w.toRat) := by
  by_cases hleast : v.exponent = -1074 ∧ w.exponent = -1074
  · have := le_unit (v.toRat * w.toRat)
    omega
  · refine le_unit_of_le ?_
    have hmantissa : 2 ^ 52 ≤ v.mantissa * w.mantissa := by
      by_cases hfull : v.exponent = -1074
      · exact (hw.full fun h => hleast ⟨hfull, h⟩).trans (Nat.le_mul_of_pos_left _ hv.pos)
      · exact (hv.full hfull).trans (Nat.le_mul_of_pos_right _ hw.pos)
    calc (2 : ℚ) ^ 52 * 2 ^ (v.exponent + w.exponent)
        ≤ (v.mantissa * w.mantissa : ℕ) * 2 ^ (v.exponent + w.exponent) :=
          mul_le_mul_of_nonneg_right (by exact_mod_cast hmantissa) (zpow_pos two_pos _).le
      _ = v.toRat * w.toRat := by
          rw [Dyadic.toRat, Dyadic.toRat, zpow_add₀ two_ne_zero, Nat.cast_mul]
          ring

theorem Legal.unit_eq {v : Dyadic} (h : Legal v) : unit v.toRat = v.exponent := by
  have hpow (k : ℕ) : (2 : ℚ) ^ (k + v.exponent) = (2 ^ k : ℕ) * 2 ^ v.exponent := by
    rw [zpow_add₀ two_ne_zero, zpow_natCast]
    norm_cast
  have hupper : Int.log 2 v.toRat < (53 : ℕ) + v.exponent := by
    refine (Int.lt_zpow_iff_log_lt one_lt_two h.toRat_pos).1 ?_
    rw [Nat.cast_ofNat, hpow]
    exact mul_lt_mul_of_pos_right (Nat.cast_lt.2 h.lt) (zpow_pos two_pos _)
  have hmin := h.min_le
  rw [unit]
  by_cases hfull : v.exponent = -1074
  · omega
  · have hlower : ((52 : ℕ) : ℤ) + v.exponent ≤ Int.log 2 v.toRat := by
      refine (Int.zpow_le_iff_le_log one_lt_two h.toRat_pos).1 ?_
      rw [Nat.cast_ofNat, hpow]
      exact mul_le_mul_of_nonneg_right (Nat.cast_le.2 (h.full hfull)) (zpow_pos two_pos _).le
    omega

theorem Legal.ofRat_eq {v : Dyadic} (h : Legal v) :
    ofRat v.toRat = min ((v.exponent + 1074).toNat * 2 ^ 52 + v.mantissa) infinityBits := by
  rw [ofRat, if_neg h.toRat_pos.ne', h.unit_eq, Dyadic.toRat,
    mul_div_cancel_right₀ _ (zpow_pos two_pos _).ne', roundWhole_natCast]

variable {bits : ℕ}

theorem value_of_lt (h : bits < 2 ^ 52) : value bits = ⟨bits, -1074⟩ :=
  if_pos h

theorem value_of_ge (h : 2 ^ 52 ≤ bits) :
    value bits = ⟨bits % 2 ^ 52 + 2 ^ 52, (bits / 2 ^ 52 : ℕ) - 1075⟩ :=
  if_neg (Nat.not_lt.2 h)

theorem toRat_value_zero : (value 0).toRat = 0 := by
  rw [value_of_lt (by decide), Dyadic.toRat, Nat.cast_zero, zero_mul]

theorem legal_value (hpos : 0 < bits) : Legal (value bits) := by
  rcases Nat.lt_or_ge bits (2 ^ 52) with hsmall | hlarge
  · rw [value_of_lt hsmall]
    exact ⟨hpos, hsmall.trans (by decide), le_refl _, fun h => absurd rfl h⟩
  · rw [value_of_ge hlarge]
    constructor <;> dsimp only <;> omega

theorem place_value (bits : ℕ) :
    ((value bits).exponent + 1074).toNat * 2 ^ 52 + (value bits).mantissa = bits := by
  rcases Nat.lt_or_ge bits (2 ^ 52) with hsmall | hlarge
  · rw [value_of_lt hsmall]
    dsimp only
    omega
  · rw [value_of_ge hlarge]
    dsimp only
    omega

theorem value_place {v : Dyadic} (h : Legal v) :
    value ((v.exponent + 1074).toNat * 2 ^ 52 + v.mantissa) = v := by
  obtain ⟨m, e⟩ := v
  obtain ⟨hpos, hlt, hmin, hfull⟩ := h
  dsimp only at hpos hlt hmin hfull ⊢
  rcases Nat.lt_or_ge m (2 ^ 52) with hsmall | hlarge
  · have hleast : e = -1074 := by omega
    subst hleast
    rw [value_of_lt (by omega)]
    exact congrArg (Dyadic.mk · _) (Nat.zero_add m)
  · rw [value_of_ge (by omega)]
    congr 1 <;> omega

theorem ofRat_value (hfinite : bits < infinityBits) : ofRat (value bits).toRat = bits := by
  by_cases hzero : bits = 0
  · rw [hzero, toRat_value_zero]
    exact if_pos rfl
  · rw [(legal_value (Nat.pos_of_ne_zero hzero)).ofRat_eq, place_value, min_eq_left hfinite.le]

end RuleInduction.Binary64
