import RuleInduction.Proofs.Decimal.Positional

namespace RuleInduction.FloatValue

open Binary64
open Decimal (isNegative unsigned)
open Float.Model (Format UnpackedFloat)
open Float.Model.UnpackedFloat (Sign)

variable {x y c : Float} {q r : ℚ}

def sign (x : Float) : Sign :=
  if isNegative x then .negative else .positive

theorem unpackSign_eq (x : Float) :
    Sign.ofBitVec (@UnpackedFloat.unpackSign Format.binary64 x.toBits.toBitVec) = sign x := by
  have hbound : x.toBits.toNat < 2 ^ 64 := x.toBits.toNat_lt
  have hzero : @UnpackedFloat.unpackSign Format.binary64 x.toBits.toBitVec = 0#1 ↔
      ¬ 2 ^ 63 ≤ x.toBits.toNat := by
    rw [← BitVec.toNat_inj, UnpackedFloat.unpackSign_def, BitVec.extractLsb'_toNat,
      Nat.shiftRight_eq_div_pow]
    change x.toBits.toNat / 2 ^ 63 % 2 ^ 1 = 0 ↔ _
    omega
  simp only [Sign.ofBitVec, hzero, sign, isNegative, decide_eq_true_eq]
  split <;> simp_all

theorem toNat_unpackExponent (x : Float) :
    (@UnpackedFloat.unpackExponent Format.binary64 x.toBits.toBitVec).toNat =
      unsigned x / 2 ^ 52 := by
  rw [UnpackedFloat.unpackExponent_def, BitVec.extractLsb'_toNat, Nat.shiftRight_eq_div_pow]
  change x.toBits.toNat / 2 ^ 52 % 2 ^ 11 = x.toBits.toNat % 2 ^ 63 / 2 ^ 52
  omega

theorem toNat_unpackMantissa (x : Float) :
    (@UnpackedFloat.unpackMantissa Format.binary64 x.toBits.toBitVec).toNat =
      unsigned x % 2 ^ 52 := by
  rw [UnpackedFloat.unpackMantissa_def, BitVec.extractLsb'_toNat]
  change x.toBits.toNat % 2 ^ 52 = x.toBits.toNat % 2 ^ 63 % 2 ^ 52
  omega

theorem unpack_infinite (h : unsigned x = infinityBits) :
    x.toModel.unpack = .infinity (sign x) := by
  have hexponent := (Decimal.unpackExponent_eq_neg_one_iff x).2 h.ge
  have hmantissa : @UnpackedFloat.unpackMantissa Format.binary64 x.toBits.toBitVec = 0#52 := by
    rw [← BitVec.toNat_inj, toNat_unpackMantissa, h]
    rfl
  change UnpackedFloat.unpack Format.binary64 x.toBits.toBitVec = _
  simp only [UnpackedFloat.unpack]
  rw [if_pos hexponent, if_pos hmantissa, unpackSign_eq]

theorem finite_congr {s : Sign} {m m' : ℕ} {e e' : ℤ} {hm : 0 < m} {hm' : 0 < m'} (hmm : m = m')
    (hee : e = e') : UnpackedFloat.finite s m e hm = .finite s m' e' hm' := by
  subst hmm hee
  rfl

theorem unpack_zero (h : unsigned x = 0) : x.toModel.unpack = .zero (sign x) := by
  have hexponent : @UnpackedFloat.unpackExponent Format.binary64 x.toBits.toBitVec = 0#11 := by
    rw [← BitVec.toNat_inj, toNat_unpackExponent, h]
    rfl
  have hmantissa : @UnpackedFloat.unpackMantissa Format.binary64 x.toBits.toBitVec = 0#52 := by
    rw [← BitVec.toNat_inj, toNat_unpackMantissa, h]
    rfl
  change UnpackedFloat.unpack Format.binary64 x.toBits.toBitVec = _
  simp only [UnpackedFloat.unpack]
  rw [if_neg (by rw [hexponent]; decide), if_pos hexponent, dif_pos hmantissa, unpackSign_eq]

theorem unpack_finite (hpos : 0 < unsigned x) (h : unsigned x < infinityBits) :
    x.toModel.unpack = .finite (sign x) (value (unsigned x)).mantissa
      (value (unsigned x)).exponent (legal_value hpos).pos := by
  have hexponent := mt (Decimal.unpackExponent_eq_neg_one_iff x).1 (Nat.not_le.2 h)
  have hexp := toNat_unpackExponent x
  have hman := toNat_unpackMantissa x
  change UnpackedFloat.unpack Format.binary64 x.toBits.toBitVec = _
  simp only [UnpackedFloat.unpack]
  rw [if_neg hexponent, unpackSign_eq]
  rcases Nat.lt_or_ge (unsigned x) (2 ^ 52) with hsmall | hlarge
  · have hzero : @UnpackedFloat.unpackExponent Format.binary64 x.toBits.toBitVec = 0#11 := by
      rw [← BitVec.toNat_inj, hexp, Nat.div_eq_of_lt hsmall]
      rfl
    have hne : @UnpackedFloat.unpackMantissa Format.binary64 x.toBits.toBitVec ≠ 0#52 := by
      rw [ne_eq, ← BitVec.toNat_inj, hman, Nat.mod_eq_of_lt hsmall]
      exact hpos.ne'
    rw [if_pos hzero, dif_neg hne]
    refine finite_congr ?_ ?_
    · rw [hman, value_of_lt hsmall, Nat.mod_eq_of_lt hsmall]
    · rw [hexp, value_of_lt hsmall, Nat.div_eq_of_lt hsmall]
      rfl
  · have hne : @UnpackedFloat.unpackExponent Format.binary64 x.toBits.toBitVec ≠ 0#11 := by
      rw [ne_eq, ← BitVec.toNat_inj, hexp]
      change ¬ unsigned x / 2 ^ 52 = 0
      omega
    rw [if_neg hne]
    refine finite_congr ?_ ?_
    · rw [BitVec.toNat_append, hman, value_of_ge hlarge, Nat.shiftLeft_eq, Nat.or_comm]
      change unsigned x % 2 ^ 52 ||| 1 * 2 ^ 52 = _
      rw [Nat.one_mul, Nat.or_two_pow_eq_add_of_lt (Nat.mod_lt _ (by decide))]
    · rw [hexp, value_of_ge hlarge]
      change ((unsigned x / 2 ^ 52 : ℕ) : ℤ) - (1023 + 52) = (unsigned x / 2 ^ 52 : ℕ) - 1075
      omega

theorem compare_value (a b : ℕ) :
    (compare (value a).exponent (value b).exponent).then
      (compare (value a).mantissa (value b).mantissa) = compare a b := by
  have hlt {a b : ℕ} (h : a < b) : (value a).exponent < (value b).exponent ∨
      (value a).exponent = (value b).exponent ∧ (value a).mantissa < (value b).mantissa := by
    rcases Nat.lt_or_ge a (2 ^ 52) with ha | ha <;> rcases Nat.lt_or_ge b (2 ^ 52) with hb | hb
    · rw [value_of_lt ha, value_of_lt hb]
      exact Or.inr ⟨rfl, h⟩
    · rw [value_of_lt ha, value_of_ge hb]
      dsimp only
      omega
    · omega
    · rw [value_of_ge ha, value_of_ge hb]
      dsimp only
      omega
  rcases Nat.lt_trichotomy a b with h | rfl | h
  · rw [Nat.compare_eq_lt.2 h]
    rcases hlt h with he | ⟨he, hm⟩
    · rw [Int.compare_eq_lt.2 he]
      rfl
    · rw [he, Std.ReflOrd.compare_self, Nat.compare_eq_lt.2 hm]
      rfl
  · simp only [Std.ReflOrd.compare_self, Ordering.then_eq]
  · rw [Nat.compare_eq_gt.2 h]
    rcases hlt h with he | ⟨he, hm⟩
    · rw [Int.compare_eq_gt.2 he]
      rfl
    · rw [he, Std.ReflOrd.compare_self, Nat.compare_eq_gt.2 hm]
      rfl

-- The bits without the sign, with the sign of the float. Both zeros have ordinal zero.
def ordinal (x : Float) : ℤ :=
  (sign x).apply (unsigned x)

theorem isNaN_iff : x.isNaN = true ↔ infinityBits < unsigned x := by
  refine ⟨fun h => ?_, Decimal.isNaN_of_infinityBits_lt⟩
  by_contra hle
  rcases Nat.lt_or_eq_of_le (Nat.not_lt.1 hle) with hlt | heq
  · rw [FloatOrder.isNaN_of_isFinite (Decimal.isFinite_iff.2 hlt)] at h
    cases h
  · change x.toModel.unpack.isNaN = true at h
    rw [unpack_infinite heq] at h
    cases h

theorem unsigned_le (h : x.isNaN = false) : unsigned x ≤ infinityBits :=
  Nat.not_lt.1 fun hlt => by cases h.symm.trans (isNaN_iff.2 hlt)

-- The three forms of a number.
theorem unpack_cases (h : x.isNaN = false) :
    (unsigned x = 0 ∧ x.toModel.unpack = .zero (sign x)) ∨
    (∃ hpos : 0 < unsigned x, unsigned x < infinityBits ∧ x.toModel.unpack =
      .finite (sign x) (value (unsigned x)).mantissa (value (unsigned x)).exponent
        (legal_value hpos).pos) ∨
    (unsigned x = infinityBits ∧ x.toModel.unpack = .infinity (sign x)) := by
  rcases Nat.eq_zero_or_pos (unsigned x) with hzero | hpos
  · exact Or.inl ⟨hzero, unpack_zero hzero⟩
  · rcases Nat.lt_or_eq_of_le (unsigned_le h) with hlt | heq
    · exact Or.inr (Or.inl ⟨hpos, hlt, unpack_finite hpos hlt⟩)
    · exact Or.inr (Or.inr ⟨heq, unpack_infinite heq⟩)

-- One goal for each pair of forms and signs. Two finite numbers of one sign compare by exponent and
-- mantissa, as their bits do; every other pair is decided by the signs.
theorem compare_unpack (hx : x.isNaN = false) (hy : y.isNaN = false) :
    x.toModel.unpack.compare y.toModel.unpack = some (compare (ordinal x) (ordinal y)) := by
  have hinf : 0 < infinityBits := by decide
  rcases unpack_cases hx with ⟨hux, hpx⟩ | ⟨hposx, hltx, hpx⟩ | ⟨hux, hpx⟩ <;>
    rcases unpack_cases hy with ⟨huy, hpy⟩ | ⟨hposy, hlty, hpy⟩ | ⟨huy, hpy⟩ <;>
      rw [hpx, hpy, ordinal, ordinal] <;> cases sign x <;> cases sign y <;>
        simp only [UnpackedFloat.compare, Sign.apply, Option.some.injEq, compare_value] <;>
        simp only [compare, compareOfLessAndEq] <;> split_ifs <;> first | rfl | omega

theorem le_iff_ordinal (hx : x.isNaN = false) (hy : y.isNaN = false) :
    x ≤ y ↔ ordinal x ≤ ordinal y := by
  change x.le y = true ↔ _
  simp only [Float.le, decide_eq_true_eq]
  change UnpackedFloat.le x.toModel.unpack y.toModel.unpack = true ↔ _
  rw [UnpackedFloat.le, compare_unpack hx hy, Option.any_some, Int.isLE_compare]

theorem lt_iff_ordinal (hx : x.isNaN = false) (hy : y.isNaN = false) :
    x < y ↔ ordinal x < ordinal y := by
  rw [← Int.not_le, ← le_iff_ordinal hy hx]
  exact (FloatOrder.not_ge_iff_lt hx hy).symm

theorem beq_iff_ordinal (hx : x.isNaN = false) (hy : y.isNaN = false) :
    (x == y) = true ↔ ordinal x = ordinal y := by
  change UnpackedFloat.beq x.toModel.unpack y.toModel.unpack = true ↔ _
  rw [UnpackedFloat.beq, compare_unpack hx hy, beq_iff_eq, Option.some.injEq, compare_eq_iff_eq]

def signed (s : Sign) (q : ℚ) : ℚ :=
  match s with
  | .negative => -q
  | .positive => q

def toRat (x : Float) : ℚ :=
  signed (sign x) (value (unsigned x)).toRat

-- The ordinal of the float nearest to a value; beyond the finite floats it is that of infinity.
def rounded (q : ℚ) : ℤ :=
  if 0 ≤ q then ofRat q else -ofRat (-q)

theorem rounded_zero : rounded 0 = 0 :=
  if_pos le_rfl

theorem rounded_signed {s : Sign} {q : ℚ} (hq : 0 ≤ q) :
    rounded (signed s q) = s.apply (ofRat q) := by
  cases s with
  | positive => exact if_pos hq
  | negative =>
      rcases hq.eq_or_lt with rfl | hpos
      · rw [signed, neg_zero, rounded, if_pos le_rfl]
        rfl
      · rw [signed, rounded, if_neg (by linarith), neg_neg]
        rfl

theorem toRat_nonneg (v : Binary64.Dyadic) : 0 ≤ v.toRat :=
  mul_nonneg (Nat.cast_nonneg _) (zpow_pos two_pos _).le

theorem rounded_toRat (h : x.isFinite = true) : rounded (toRat x) = ordinal x := by
  rw [toRat, rounded_signed (toRat_nonneg _), ofRat_value (Decimal.isFinite_iff.1 h), ordinal]

theorem rounded_mono {p q : ℚ} (h : p ≤ q) : rounded p ≤ rounded q := by
  simp only [rounded]
  split_ifs with hp hq hq
  · exact Int.ofNat_le.2 (ofRat_mono hp h)
  · exact absurd (hp.trans h) hq
  · omega
  · exact Int.neg_le_neg (Int.ofNat_le.2 (ofRat_mono (by linarith) (neg_le_neg h)))

theorem natAbs_ordinal (x : Float) : (ordinal x).natAbs = unsigned x := by
  rw [ordinal]
  cases sign x with
  | negative => exact (Int.natAbs_neg _).trans (Int.natAbs_natCast _)
  | positive => exact Int.natAbs_natCast _

theorem natAbs_rounded_le (q : ℚ) : (rounded q).natAbs ≤ infinityBits := by
  rw [rounded]
  split
  · exact ofRat_le q
  · rw [Int.natAbs_neg]
    exact ofRat_le (-q)

theorem isNaN_of_ordinal (h : ordinal x = rounded q) : x.isNaN = false := by
  rw [Bool.eq_false_iff, ne_eq, isNaN_iff, ← natAbs_ordinal, h]
  exact Nat.not_lt.2 (natAbs_rounded_le q)

structure HasValue (x : Float) (q : ℚ) : Prop where
  finite : x.isFinite = true
  toRat_eq : toRat x = q

theorem HasValue.ordinal_eq (h : HasValue x q) : ordinal x = rounded q := by
  rw [← h.toRat_eq, rounded_toRat h.finite]

theorem HasValue.isNaN_eq (h : HasValue x q) : x.isNaN = false :=
  FloatOrder.isNaN_of_isFinite h.finite

theorem le_of_ordinal (hc : HasValue c r) (h : ordinal x = rounded q) (hle : q ≤ r) : x ≤ c := by
  rw [le_iff_ordinal (isNaN_of_ordinal h) hc.isNaN_eq, h, hc.ordinal_eq]
  exact rounded_mono hle

theorem ge_of_ordinal (hc : HasValue c r) (h : ordinal x = rounded q) (hle : r ≤ q) : c ≤ x := by
  rw [le_iff_ordinal hc.isNaN_eq (isNaN_of_ordinal h), h, hc.ordinal_eq]
  exact rounded_mono hle

theorem toRat_eq_sign_mul (x : Float) :
    toRat x = (ordinal x).sign * (value (ordinal x).natAbs).toRat := by
  rw [natAbs_ordinal, toRat, ordinal]
  rcases Nat.eq_zero_or_pos (unsigned x) with hzero | hpos
  · rw [hzero, toRat_value_zero, mul_zero]
    cases sign x with
    | negative => exact neg_zero
    | positive => rfl
  · cases sign x with
    | negative =>
        rw [Sign.apply, Int.sign_neg, Int.sign_natCast_of_ne_zero hpos.ne', signed, Int.cast_neg,
          Int.cast_one, neg_one_mul]
    | positive =>
        rw [Sign.apply, Int.sign_natCast_of_ne_zero hpos.ne', signed, Int.cast_one, one_mul]

theorem HasValue.of_ordinal_eq (h : HasValue y q) (heq : ordinal x = ordinal y) : HasValue x q := by
  refine ⟨?_, ?_⟩
  · rw [Decimal.isFinite_iff, ← natAbs_ordinal, heq, natAbs_ordinal, ← Decimal.isFinite_iff]
    exact h.finite
  · rw [← h.toRat_eq, toRat_eq_sign_mul, toRat_eq_sign_mul, heq]

theorem le_iff_toRat (hx : x.isFinite = true) (hy : y.isFinite = true) :
    x ≤ y ↔ toRat x ≤ toRat y := by
  have hx' : HasValue x (toRat x) := ⟨hx, rfl⟩
  have hy' : HasValue y (toRat y) := ⟨hy, rfl⟩
  refine ⟨fun h => ?_, le_of_ordinal hy' hx'.ordinal_eq⟩
  by_contra hlt
  have hle := (le_iff_ordinal hx'.isNaN_eq hy'.isNaN_eq).1 h
  have hge := rounded_mono (not_le.1 hlt).le
  rw [← hx'.ordinal_eq, ← hy'.ordinal_eq] at hge
  rw [toRat_eq_sign_mul x, toRat_eq_sign_mul y, le_antisymm hle hge] at hlt
  exact hlt le_rfl

theorem lt_iff_toRat (hx : x.isFinite = true) (hy : y.isFinite = true) :
    x < y ↔ toRat x < toRat y := by
  rw [← not_le, ← le_iff_toRat hy hx]
  exact (FloatOrder.not_ge_iff_lt (FloatOrder.isNaN_of_isFinite hx)
    (FloatOrder.isNaN_of_isFinite hy)).symm

theorem eq_of_ordinal {x y : Float} (hpos : 0 < ordinal x) (h : ordinal x = ordinal y) :
    x = y := by
  have hsign {z : Float} (hz : 0 < ordinal z) : isNegative z = false := by
    rw [ordinal, sign] at hz
    cases hneg : isNegative z with
    | true =>
        rw [hneg, if_pos rfl, Sign.apply] at hz
        omega
    | false => rfl
  rw [← Decimal.toFloat_unsigned x, ← Decimal.toFloat_unsigned y, hsign hpos, hsign (h ▸ hpos),
    ← natAbs_ordinal, ← natAbs_ordinal, h]

theorem hasValue_of_place {v : Binary64.Dyadic} (hv : Legal v) (hmax : v.exponent ≤ 971)
    (h : ordinal x = ((v.exponent + 1074).toNat * 2 ^ 52 + v.mantissa : ℕ)) :
    HasValue x v.toRat := by
  have hpos := hv.pos
  have hlt := hv.lt
  constructor
  · rw [Decimal.isFinite_iff, ← natAbs_ordinal, h]
    change _ < 2047 * 2 ^ 52
    omega
  · rw [toRat_eq_sign_mul, h, Int.natAbs_natCast, value_place hv, Int.sign_natCast_of_ne_zero
      (by omega), Int.cast_one, one_mul]

theorem hasValue_of_ordinal {v : Binary64.Dyadic} (hv : Legal v) (hmax : v.exponent ≤ 971)
    (h : ordinal x = rounded v.toRat) : HasValue x v.toRat := by
  have hlt := hv.lt
  have hfits : (v.exponent + 1074).toNat * 2 ^ 52 + v.mantissa ≤ infinityBits := by
    change _ ≤ 2047 * 2 ^ 52
    omega
  rw [rounded, if_pos hv.toRat_pos.le, hv.ofRat_eq, min_eq_left hfits] at h
  exact hasValue_of_place hv hmax h

theorem hasValue_zero : HasValue 0.0 0 := by
  have hzero : ordinal 0.0 = 0 := by decide
  refine ⟨by decide, ?_⟩
  rw [toRat_eq_sign_mul, hzero, Int.sign_zero, Int.cast_zero, zero_mul]

theorem hasValue_two_pow {e : ℤ} (hmin : -1074 ≤ e) (hmax : e ≤ 971)
    (h : ordinal x = ((e + 1074).toNat * 2 ^ 52 + 2 ^ 52 : ℕ)) : HasValue x (2 ^ (52 + e)) := by
  have hlegal : Legal ⟨2 ^ 52, e⟩ :=
    ⟨Nat.two_pow_pos 52, Nat.pow_lt_pow_succ one_lt_two, hmin, fun _ => le_rfl⟩
  have hvalue := hasValue_of_place hlegal hmax h
  rwa [Binary64.Dyadic.toRat, Nat.cast_pow, Nat.cast_ofNat, ← zpow_natCast,
    ← zpow_add₀ two_ne_zero] at hvalue

theorem hasValue_one : HasValue 1.0 1 :=
  hasValue_two_pow (e := -52) (by decide) (by decide) (by decide)

theorem hasValue_two : HasValue 2.0 2 :=
  hasValue_two_pow (e := -51) (by decide) (by decide) (by decide)

end RuleInduction.FloatValue
