import RuleInduction.Proofs.FloatValue

namespace RuleInduction.FloatRounding

open Binary64 FloatValue
open Float.Model (Format UnpackedFloat totalExponent)
open Float.Model.UnpackedFloat (Sign ExtendedMantissa Accuracy shiftToExponent
  shiftToTargetExponent roundWithAccuracy accuracyOfFraction decreaseExponent)

-- What a mantissa with its round bit leaves of an exact value.
def rest (m : ExtendedMantissa) (x : ℚ) : ℚ :=
  x - m.mantissa - m.roundBit.toNat / 2

structure Represents (m : ExtendedMantissa) (x : ℚ) : Prop where
  nonneg : 0 ≤ rest m x
  lt : rest m x < 1 / 2
  sticky : m.stickyBit = true ↔ rest m x ≠ 0

namespace Represents

variable {m : ExtendedMantissa} {x : ℚ}

theorem floor_eq (h : Represents m x) : ⌊x⌋₊ = m.mantissa := by
  obtain ⟨hnonneg, hlt, -⟩ := h
  have hbit : (m.roundBit.toNat : ℚ) ≤ 1 := Nat.cast_le_one.2 (Bool.toNat_le _)
  have hbit' : (0 : ℚ) ≤ m.roundBit.toNat := Nat.cast_nonneg _
  rw [rest] at hnonneg hlt
  exact (Nat.floor_eq_iff (by linarith [Nat.cast_nonneg (α := ℚ) m.mantissa])).2
    ⟨by linarith, by linarith⟩

theorem roundedMantissa_eq (h : Represents m x) : m.roundedMantissa = roundWhole x := by
  have hfloor := h.floor_eq
  obtain ⟨hnonneg, hlt, hsticky⟩ := h
  obtain ⟨mantissa, roundBit, stickyBit⟩ := m
  simp only [rest] at hnonneg hlt hsticky
  simp only [roundWhole, hfloor]
  cases roundBit with
  | false =>
      rw [Bool.toNat_false, Nat.cast_zero] at hlt
      rw [if_pos (by linarith)]
      cases stickyBit <;> rfl
  | true =>
      rw [Bool.toNat_true, Nat.cast_one] at hnonneg hsticky
      rw [if_neg (by linarith)]
      cases stickyBit with
      | false =>
          have hhalf := not_not.1 (mt hsticky.2 Bool.false_ne_true)
          rw [if_neg (by linarith)]
          rfl
      | true =>
          have hmore := lt_of_le_of_ne hnonneg (hsticky.1 rfl).symm
          rw [if_pos (by linarith)]
          rfl

theorem rest_shiftRightOne (m : ExtendedMantissa) (x : ℚ) :
    rest m.shiftRightOne (x / 2) = (rest m x + m.roundBit.toNat / 2) / 2 := by
  have hsplit : (m.mantissa : ℚ) = 2 * (m.mantissa / 2 : ℕ) + (m.mantissa % 2 : ℕ) := by
    exact_mod_cast (Nat.div_add_mod m.mantissa 2).symm
  have hbit : m.shiftRightOne.roundBit.toNat = m.mantissa % 2 := by
    change (m.mantissa % 2 != 0).toNat = _
    rcases Nat.mod_two_eq_zero_or_one m.mantissa with h | h <;> rw [h] <;> rfl
  rw [rest, rest, sub_add_cancel, hbit, hsplit]
  change x / 2 - (m.mantissa / 2 : ℕ) - _ = _
  ring

theorem shiftRightOne (h : Represents m x) : Represents m.shiftRightOne (x / 2) := by
  obtain ⟨hnonneg, hlt, hsticky⟩ := h
  obtain ⟨mantissa, roundBit, stickyBit⟩ := m
  constructor <;> rw [rest_shiftRightOne] <;> cases roundBit
  case sticky.false =>
    rw [Bool.toNat_false, Nat.cast_zero, zero_div, add_zero, div_ne_zero_iff]
    exact hsticky.trans (and_iff_left two_ne_zero).symm
  case sticky.true =>
    rw [Bool.toNat_true, Nat.cast_one]
    exact iff_of_true rfl (by linarith)
  all_goals
    norm_num
    linarith

theorem shiftRight (h : Represents m x) (k : ℕ) : Represents (m >>> k) (x / 2 ^ k) := by
  induction k with
  | zero =>
      rw [pow_zero, div_one]
      exact h
  | succ k ih =>
      rw [pow_succ, ← div_div]
      exact ih.shiftRightOne

theorem of_eq {n : ℕ} {r s : Bool} {t : ℚ} (hx : x = n + r.toNat / 2 + t) (hnonneg : 0 ≤ t)
    (hlt : t < 1 / 2) (hs : s = true ↔ t ≠ 0) : Represents ⟨n, r, s⟩ x := by
  have hrest : rest ⟨n, r, s⟩ x = t := by
    rw [rest, hx]
    ring
  constructor <;> rw [hrest]
  · exact hnonneg
  · exact hlt
  · exact hs

theorem exact (n : ℕ) : Represents (.ofMantissaAndAccuracy n .exact) n :=
  of_eq (by simp) le_rfl (by norm_num) (iff_of_false Bool.false_ne_true (not_not.2 rfl))

theorem fraction (a : ℕ) {b : ℕ} (hb : 0 < b) :
    Represents (.ofMantissaAndAccuracy (a / b) (accuracyOfFraction (a % b) b)) (a / b) := by
  have hb' : (0 : ℚ) < b := Nat.cast_pos.2 hb
  have hsplit : (a : ℚ) / b = (a / b : ℕ) + (a % b : ℕ) / b := by
    rw [div_eq_iff hb'.ne', add_mul, div_mul_cancel₀ _ hb'.ne']
    exact_mod_cast (Nat.div_add_mod' a b).symm
  have htwice : 2 * (((a % b : ℕ) : ℚ) / b) = (2 * (a % b) : ℕ) / b := by
    rw [Nat.cast_mul, Nat.cast_ofNat, mul_div_assoc]
  have hlt : ((a % b : ℕ) : ℚ) / b < 1 := (div_lt_one hb').2 (Nat.cast_lt.2 (Nat.mod_lt a hb))
  rw [hsplit, accuracyOfFraction]
  rcases Nat.eq_zero_or_pos (a % b) with hzero | hpos
  · rw [hzero, if_pos rfl, Nat.cast_zero, zero_div, add_zero]
    exact exact _
  · have hpos' : (0 : ℚ) < (a % b : ℕ) / b := div_pos (Nat.cast_pos.2 hpos) hb'
    rw [if_neg hpos.ne']
    rcases Nat.lt_trichotomy (2 * (a % b)) b with h | h | h
    · have hless := (div_lt_one hb').2 (Nat.cast_lt (α := ℚ).2 h)
      rw [Nat.compare_eq_lt.2 h]
      exact of_eq (by simp) hpos'.le (by linarith) (iff_of_true rfl hpos'.ne')
    · rw [h, div_self hb'.ne'] at htwice
      rw [Nat.compare_eq_eq.2 h]
      exact of_eq (by rw [Bool.toNat_true]; linarith) le_rfl (by norm_num)
        (iff_of_false Bool.false_ne_true (not_not.2 rfl))
    · have hmore := (one_lt_div hb').2 (Nat.cast_lt (α := ℚ).2 h)
      rw [Nat.compare_eq_gt.2 h]
      exact of_eq (t := (a % b : ℕ) / b - 1 / 2) (by rw [Bool.toNat_true]; ring) (by linarith)
        (by linarith) (iff_of_true rfl (by linarith))

end Represents

theorem log_eq {q : ℚ} {e : ℤ} {n : ℕ} (hn : n ≠ 0) (h : ⌊q / 2 ^ e⌋₊ = n) :
    Int.log 2 q = n.log2 + e := by
  obtain ⟨hlower, hupper⟩ := (Nat.floor_eq_iff' hn).1 h
  rw [le_div_iff₀ (zpow_pos two_pos _)] at hlower
  rw [div_lt_iff₀ (zpow_pos two_pos _)] at hupper
  have hq : 0 < q :=
    (mul_pos (Nat.cast_pos.2 (Nat.pos_of_ne_zero hn)) (zpow_pos two_pos _)).trans_le hlower
  have h1 : (2 : ℚ) ^ ((n.log2 : ℤ) + e) ≤ q := by
    rw [zpow_add₀ two_ne_zero, zpow_natCast]
    refine (mul_le_mul_of_nonneg_right ?_ (zpow_pos two_pos _).le).trans hlower
    exact_mod_cast Nat.log2_self_le hn
  have h2 : q < (2 : ℚ) ^ ((n.log2 + 1 : ℕ) + e) := by
    rw [zpow_add₀ two_ne_zero, zpow_natCast]
    refine hupper.trans_le (mul_le_mul_of_nonneg_right ?_ (zpow_pos two_pos _).le)
    exact_mod_cast Nat.lt_log2_self (n := n)
  have := (Int.zpow_le_iff_le_log one_lt_two hq).1 h1
  have := (Int.lt_zpow_iff_log_lt one_lt_two hq).1 h2
  omega

theorem targetExponent_of_ne_zero {q : ℚ} {e : ℤ} {n : ℕ} (hn : n ≠ 0) (h : ⌊q / 2 ^ e⌋₊ = n) :
    Format.binary64.targetExponent (totalExponent n e) = unit q := by
  change max ((n.log2 : ℤ) + 1 + e - 53) (-1074) = unit q
  rw [unit, log_eq hn h]
  omega

theorem targetExponent_eq {q : ℚ} {e : ℤ} {n : ℕ} (hq : 0 < q) (hn : ⌊q / 2 ^ e⌋₊ = n)
    (he : e ≤ unit q) : Format.binary64.targetExponent (totalExponent n e) = unit q := by
  by_cases hzero : n = 0
  · have hlt : q < 2 ^ e := by
      rw [← div_lt_one (zpow_pos two_pos _)]
      exact Nat.floor_eq_zero.1 (hn.trans hzero)
    have hlog := (Int.lt_zpow_iff_log_lt one_lt_two hq).1 hlt
    change max ((n.log2 : ℤ) + 1 + e - 53) (-1074) = unit q
    rw [unit] at he ⊢
    rw [hzero, Nat.log2_zero]
    omega
  · exact targetExponent_of_ne_zero hzero hn

theorem mantissa_ofMantissaAndAccuracy (n : ℕ) (acc : Accuracy) :
    (ExtendedMantissa.ofMantissaAndAccuracy n acc).mantissa = n := by
  cases acc with
  | exact => rfl
  | inexact o => cases o <;> rfl

theorem shiftToTargetExponent_represents {q : ℚ} {e : ℤ} {n : ℕ} {acc : Accuracy} (hq : 0 < q)
    (h : Represents (.ofMantissaAndAccuracy n acc) (q / 2 ^ e)) (he : e ≤ unit q) :
    ∃ m, shiftToTargetExponent .binary64 n e acc = (m, unit q) ∧
      Represents m (q / 2 ^ unit q) := by
  have hfloor := h.floor_eq.trans (mantissa_ofMantissaAndAccuracy n acc)
  have hamount : e + (unit q - e).toNat = unit q := by omega
  have hshift := h.shiftRight (unit q - e).toNat
  rw [div_div, ← zpow_natCast, ← zpow_add₀ two_ne_zero, hamount] at hshift
  refine ⟨_, ?_, hshift⟩
  simp only [shiftToTargetExponent, targetExponent_eq hq hfloor he, shiftToExponent, hamount]

theorem shiftToTargetExponent_of_lt {n : ℕ} {e : ℤ} (hn : n < 2 ^ 53) (he : -1074 ≤ e) :
    shiftToTargetExponent .binary64 n e .exact = (⟨n, false, false⟩, e) := by
  have hlog : n.log2 < 53 := by
    by_cases hzero : n = 0
    · rw [hzero, Nat.log2_zero]
      decide
    · exact (Nat.log2_lt hzero).2 hn
  have htarget : (Format.binary64.targetExponent (totalExponent n e) - e).toNat = 0 := by
    change (max ((n.log2 : ℤ) + 1 + e - 53) (-1074) - e).toNat = 0
    omega
  simp only [shiftToTargetExponent, shiftToExponent, htarget]
  exact congrArg _ (add_zero e)

theorem shiftToTargetExponent_carry {e : ℤ} (he : -1074 ≤ e) :
    shiftToTargetExponent .binary64 (2 ^ 53) e .exact = (⟨2 ^ 52, false, false⟩, e + 1) := by
  have htarget : (Format.binary64.targetExponent (totalExponent (2 ^ 53) e) - e).toNat = 1 := by
    change (max (((2 ^ 53 : ℕ).log2 : ℤ) + 1 + e - 53) (-1074) - e).toNat = 1
    rw [Nat.log2_two_pow]
    omega
  simp only [shiftToTargetExponent, shiftToExponent, htarget]
  rfl

def packed (u : UnpackedFloat) : Float :=
  .ofModel (.pack u)

theorem toBits_packed (u : UnpackedFloat) :
    (packed u).toBits.toBitVec = UnpackedFloat.pack .binary64 u :=
  rfl

section Components

variable {x : Float} {s : Sign} {e : BitVec 11} {m : BitVec 52}
  (h : x.toBits.toBitVec = UnpackedFloat.packComponents .binary64 s e m)

include h

theorem sign_of_components : sign x = s := by
  rw [← unpackSign_eq, h, UnpackedFloat.unpackSign_packComponents, Sign.ofBitVec_toBitVec]

theorem unsigned_of_components : Decimal.unsigned x = e.toNat * 2 ^ 52 + m.toNat := by
  have hexp := toNat_unpackExponent x
  have hman := toNat_unpackMantissa x
  rw [h, UnpackedFloat.unpackExponent_packComponents] at hexp
  rw [h, UnpackedFloat.unpackMantissa_packComponents] at hman
  rw [hexp, hman, Nat.div_add_mod']

theorem ordinal_of_components {n : ℕ} (hn : e.toNat * 2 ^ 52 + m.toNat = n) :
    ordinal x = s.apply n := by
  rw [ordinal, sign_of_components h, unsigned_of_components h, hn]

end Components

theorem ordinal_packed_zero (s : Sign) : ordinal (packed (.zero s)) = 0 := by
  cases s <;> decide

theorem ordinal_packed_infinity (s : Sign) :
    ordinal (packed (.infinity s)) = s.apply infinityBits := by
  cases s <;> decide

theorem ordinal_packed_finite (s : Sign) {v : Binary64.Dyadic} (h : Legal v) :
    ordinal (packed (.finite s v.mantissa v.exponent h.pos)) = s.apply (ofRat v.toRat) := by
  have hbits := toBits_packed (.finite s v.mantissa v.exponent h.pos)
  have hbias : v.exponent + Format.binary64.exponentBias +
      Format.binary64.mantissaBitsWithoutImplicit = v.exponent + 1075 :=
    Int.add_assoc v.exponent 1023 52
  obtain ⟨hpos, hlt, hmin, hfull⟩ := id h
  simp only [UnpackedFloat.pack, hbias] at hbits
  rw [h.ofRat_eq]
  split at hbits
  · next hlarge =>
      change 2048 ≤ (v.exponent + 1075).toNat + 1 at hlarge
      refine ordinal_of_components hbits ?_
      rw [min_eq_right]
      · rfl
      · change 2047 * 2 ^ 52 ≤ _
        omega
  · next hfits =>
      change ¬ 2048 ≤ (v.exponent + 1075).toNat + 1 at hfits
      have hle : (v.exponent + 1074).toNat * 2 ^ 52 + v.mantissa ≤ infinityBits := by
        change _ ≤ 2047 * 2 ^ 52
        omega
      rw [min_eq_left hle]
      split at hbits
      · next hnormal =>
          change v.mantissa.log2 + 1 = 52 + 1 at hnormal
          have hlower := ((Nat.log2_eq_iff hpos.ne').1 (Nat.succ.inj hnormal)).1
          refine ordinal_of_components hbits ?_
          rw [BitVec.toNat_ofNat, BitVec.toNat_ofNat]
          omega
      · next hsubnormal =>
          have hsmall : ¬ 2 ^ 52 ≤ v.mantissa := fun hlower => hsubnormal
            (congrArg (· + 1) ((Nat.log2_eq_iff hpos.ne').2 ⟨hlower, hlt⟩))
          have hexponent : v.exponent = -1074 := not_not.1 (mt hfull hsmall)
          refine ordinal_of_components hbits ?_
          rw [BitVec.toNat_ofNat, hexponent]
          change 0 * 2 ^ 52 + v.mantissa % 2 ^ 52 = 0 * 2 ^ 52 + v.mantissa
          rw [Nat.mod_eq_of_lt (Nat.not_le.1 hsmall)]

theorem ordinal_packed_place (s : Sign) {n : ℕ} {e : ℤ} (hn : 0 < n) (hlt : n < 2 ^ 53)
    (hmin : -1074 ≤ e) (hfull : e ≠ -1074 → 2 ^ 52 ≤ n) :
    ordinal (packed (.finite s n e hn)) =
      s.apply (min ((e + 1074).toNat * 2 ^ 52 + n) infinityBits : ℕ) := by
  have hlegal : Legal ⟨n, e⟩ := ⟨hn, hlt, hmin, hfull⟩
  rw [ordinal_packed_finite s hlegal, hlegal.ofRat_eq]

theorem ordinal_roundWithAccuracy (s : Sign) {q : ℚ} {e : ℤ} {n : ℕ} {acc : Accuracy} (hq : 0 < q)
    (h : Represents (.ofMantissaAndAccuracy n acc) (q / 2 ^ e)) (he : e ≤ unit q) :
    ordinal (packed (roundWithAccuracy .binary64 s n e acc)) = s.apply (ofRat q) := by
  obtain ⟨m, hshift, hm⟩ := shiftToTargetExponent_represents hq h he
  have hmin := le_unit q
  simp only [roundWithAccuracy, hshift, hm.roundedMantissa_eq, ofRat, if_neg hq.ne']
  rcases (roundWhole_unit_le q).lt_or_eq with hlt | hcarry
  · simp only [shiftToTargetExponent_of_lt hlt hmin]
    split
    · next hzero =>
        have hleast : unit q = -1074 := by
          by_contra hne
          have := le_roundWhole_unit hq hne
          omega
        rw [ordinal_packed_zero, hzero, hleast]
        cases s <;> rfl
    · next hne =>
        exact ordinal_packed_place s (Nat.pos_of_ne_zero hne) hlt hmin (le_roundWhole_unit hq)
  · simp only [hcarry, shiftToTargetExponent_carry hmin]
    have hplace : (unit q + 1 + 1074).toNat * 2 ^ 52 + 2 ^ 52 =
        (unit q + 1074).toNat * 2 ^ 52 + 2 ^ 53 := by
      omega
    rw [dif_neg (by decide), ordinal_packed_place s (by decide) (by decide) (by omega)
      (fun _ => by decide), hplace]

theorem ordinal_roundWithAccuracy_exact (s : Sign) {q : ℚ} {e : ℤ} {n : ℕ} (hq : 0 < q)
    (h : (n : ℚ) * 2 ^ e = q) (he : e ≤ unit q) :
    ordinal (packed (roundWithAccuracy .binary64 s n e .exact)) = s.apply (ofRat q) := by
  refine ordinal_roundWithAccuracy s hq ?_ he
  rw [← h, mul_div_cancel_right₀ _ (zpow_pos two_pos _).ne']
  exact .exact n

theorem decreaseExponent_value (n : ℕ) (e f : ℤ) :
    ((decreaseExponent n e f).1 : ℚ) * 2 ^ (decreaseExponent n e f).2 = n * 2 ^ e := by
  have hamount : ((e - f).toNat : ℤ) + (e - (e - f).toNat) = e := by omega
  rw [decreaseExponent, Nat.shiftLeft_eq, Nat.cast_mul, Nat.cast_pow, Nat.cast_ofNat,
    ← zpow_natCast, mul_assoc, ← zpow_add₀ two_ne_zero, hamount]

theorem ordinal_round (s : Sign) {n : ℕ} (hn : 0 < n) (e : ℤ) :
    ordinal (packed (.round .binary64 s n e)) = s.apply (ofRat (n * 2 ^ e)) := by
  have hfloor : ⌊(n * 2 ^ e : ℚ) / 2 ^ e⌋₊ = n := by
    rw [mul_div_cancel_right₀ _ (zpow_pos two_pos _).ne', Nat.floor_natCast]
  refine ordinal_roundWithAccuracy_exact s ?_ (decreaseExponent_value n e _) ?_
  · exact mul_pos (Nat.cast_pos.2 hn) (zpow_pos two_pos _)
  · rw [targetExponent_of_ne_zero hn.ne' hfloor]
    omega

theorem ordinal_normalize (n e : ℤ) (s : Sign) :
    ordinal (packed (.normalize .binary64 n e s)) = rounded (n * 2 ^ e) := by
  rcases Int.lt_trichotomy n 0 with h | rfl | h
  · have hcast : (n * 2 ^ e : ℚ) = signed .negative ((-n).toNat * 2 ^ e) := by
      have : (((-n).toNat : ℤ) : ℚ) = (-n : ℤ) := by rw [Int.toNat_of_nonneg (by omega)]
      rw [signed, ← neg_mul, ← Int.cast_natCast, this, Int.cast_neg, neg_neg]
    simp only [UnpackedFloat.normalize, Int.compare_eq_lt.2 h]
    rw [ordinal_round _ (by omega), hcast, rounded_signed (by positivity)]
  · rw [Int.cast_zero, zero_mul]
    exact ordinal_packed_zero s
  · have hcast : (n * 2 ^ e : ℚ) = signed .positive (n.toNat * 2 ^ e) := by
      rw [signed, ← Int.cast_natCast, Int.toNat_of_nonneg h.le]
    simp only [UnpackedFloat.normalize, Int.compare_eq_gt.2 h]
    rw [ordinal_round _ (by omega), hcast, rounded_signed (by positivity)]

end RuleInduction.FloatRounding
