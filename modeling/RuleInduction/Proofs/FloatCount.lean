import RuleInduction.Fact
import RuleInduction.Proofs.FloatArithmetic

namespace RuleInduction.FloatCount

open Binary64 FloatValue FloatRounding FloatArithmetic
open Float.Model (UnpackedFloat)

variable {n : ℕ}

theorem exists_legal (hn : n ≠ 0) (hle : n ≤ 2 ^ 53) :
    ∃ v, Legal v ∧ v.exponent = n.log2 - 52 ∧ v.toRat = n := by
  rcases hle.lt_or_eq with hlt | rfl
  · have hlog : n.log2 < 53 := (Nat.log2_lt hn).2 hlt
    have hlower := Nat.mul_le_mul_right (2 ^ (52 - n.log2)) (Nat.log2_self_le hn)
    have hupper := Nat.mul_lt_mul_of_pos_right (Nat.lt_log2_self (n := n))
      (Nat.two_pow_pos (52 - n.log2))
    rw [← Nat.pow_add, Nat.add_sub_cancel' (Nat.le_of_lt_succ hlog)] at hlower
    rw [← Nat.pow_add, Nat.add_right_comm, Nat.add_sub_cancel' (Nat.le_of_lt_succ hlog)] at hupper
    refine ⟨⟨n * 2 ^ (52 - n.log2), n.log2 - 52⟩,
      ⟨(Nat.two_pow_pos 52).trans_le hlower, hupper, ?_, fun _ => hlower⟩, rfl, ?_⟩
    · dsimp only
      omega
    · have hexponent : ((52 - n.log2 : ℕ) : ℤ) + (n.log2 - 52) = 0 := by omega
      rw [Binary64.Dyadic.toRat, Nat.cast_mul, Nat.cast_pow, Nat.cast_ofNat, ← zpow_natCast,
        mul_assoc, ← zpow_add₀ two_ne_zero, hexponent, zpow_zero, mul_one]
  · refine ⟨⟨2 ^ 52, 1⟩, ⟨by decide, by decide, by decide, fun _ => le_rfl⟩, ?_, ?_⟩
    · rw [Nat.log2_two_pow]
      rfl
    · rw [Binary64.Dyadic.toRat]
      norm_num

theorem log2_le (hle : n ≤ 2 ^ 53) : n.log2 ≤ 53 := by
  by_cases hn : n = 0
  · rw [hn, Nat.log2_zero]
    exact Nat.zero_le 53
  · exact Nat.lt_succ_iff.1 ((Nat.log2_lt hn).2 (hle.trans_lt (by decide)))

theorem ordinal_toUInt64 (hlt : n < 2 ^ 53) :
    ordinal n.toUInt64.toFloat = rounded n := by
  have hmod : n.toUInt64.toNat = n := UInt64.toNat_ofNat_of_lt (hlt.trans (by decide))
  change ordinal (packed (.normalize .binary64 n.toUInt64.toNat 0 .positive)) = _
  rw [ordinal_normalize, hmod, zpow_zero, mul_one, Int.cast_natCast]

theorem ordinal_ofNat (n : ℕ) : ordinal (Float.ofNat n) = rounded n := by
  by_cases hn : n = 0
  · rw [hn, Nat.cast_zero, rounded_zero]
    decide
  · rcases Nat.lt_or_ge n (2 ^ 53) with hlt | hge
    · have hfast : Float.ofNat n = n.toUInt64.toFloat * 1.0 := dif_pos ⟨hlt, by decide⟩
      obtain ⟨v, hv, hexponent, hvalue⟩ := exists_legal hn hlt.le
      have hlog := log2_le hlt.le
      have hwhole := hasValue_of_ordinal hv (by omega) (hvalue ▸ ordinal_toUInt64 hlt)
      rw [hfast, ordinal_mul hwhole.finite hasValue_one.finite, hwhole.toRat_eq, hvalue,
        hasValue_one.toRat_eq, mul_one]
    · have hslow : Float.ofNat n = packed (.ofScientific .binary64 n 0) :=
        dif_neg fun h => Nat.not_lt.2 hge h.1
      have hlarge : ¬ (0 : ℤ) < -(2 ^ 11 + n.log2) := by omega
      have hround : UnpackedFloat.ofScientific .binary64 n 0 =
          .roundWithAccuracy .binary64 .positive (n <<< 53 * 1) (-53) .exact := by
        rw [UnpackedFloat.ofScientific, dif_neg hn, if_neg (by decide), if_neg hlarge,
          if_pos le_rfl]
        rfl
      have hq : (0 : ℚ) < n := Nat.cast_pos.2 (Nat.pos_of_ne_zero hn)
      have hunit : -53 ≤ unit n := by
        refine le_unit_of_le (le_trans ?_ (Nat.one_le_cast.2 (Nat.pos_of_ne_zero hn)))
        norm_num
      have hscaled : ((n <<< 53 * 1 : ℕ) : ℚ) * 2 ^ (-53 : ℤ) = n := by
        rw [Nat.shiftLeft_eq, mul_one, Nat.cast_mul, Nat.cast_pow, Nat.cast_ofNat, mul_assoc,
          ← zpow_natCast, ← zpow_add₀ two_ne_zero]
        exact mul_one _
      rw [hslow, hround, ordinal_roundWithAccuracy_exact _ hq hscaled hunit, rounded, if_pos hq.le]
      rfl

theorem hasValue_ofNat (hle : n ≤ 2 ^ 53) : HasValue (Float.ofNat n) n := by
  by_cases hn : n = 0
  · rw [hn, Nat.cast_zero]
    exact hasValue_zero
  · obtain ⟨v, hv, hexponent, hvalue⟩ := exists_legal hn hle
    have hlog := log2_le hle
    rw [← hvalue]
    exact hasValue_of_ordinal hv (by omega) (hvalue ▸ ordinal_ofNat n)

theorem ofNat_add_one (hle : n ≤ 2 ^ 53) : Float.ofNat n + 1.0 = Float.ofNat (n + 1) := by
  have hn := hasValue_ofNat hle
  have hsum := ordinal_add hn.finite hasValue_one.finite
  have hsucc := ordinal_ofNat (n + 1)
  rw [hn.toRat_eq, hasValue_one.toRat_eq] at hsum
  rw [Nat.cast_succ] at hsucc
  refine eq_of_ordinal ?_ (hsum.trans hsucc.symm)
  calc (0 : ℤ) < ordinal 1.0 := by decide
    _ = rounded 1 := hasValue_one.ordinal_eq
    _ ≤ rounded (n + 1) := rounded_mono (by linarith [Nat.cast_nonneg (α := ℚ) n])
    _ = ordinal (Float.ofNat n + 1.0) := hsum.symm

-- Counting stops here: `2 ^ 53 + 1` lies half way between two floats and goes to the even one.
theorem ofNat_limit_succ : Float.ofNat (2 ^ 53 + 1) = Float.ofNat (2 ^ 53) := by
  decide

theorem ofNat_limit_add_one : Float.ofNat (2 ^ 53) + 1.0 = Float.ofNat (2 ^ 53) :=
  (ofNat_add_one le_rfl).trans ofNat_limit_succ

theorem ofNat_div_self (hn : n ≠ 0) (hle : n ≤ 2 ^ 53 + 1) :
    Float.ofNat n / Float.ofNat n = 1.0 := by
  obtain ⟨q, hq, hvalue⟩ : ∃ q, q ≠ 0 ∧ HasValue (Float.ofNat n) q := by
    rcases hle.lt_or_eq with hlt | rfl
    · exact ⟨_, Nat.cast_ne_zero.2 hn, hasValue_ofNat (Nat.le_of_lt_succ hlt)⟩
    · rw [ofNat_limit_succ]
      exact ⟨_, Nat.cast_ne_zero.2 (by decide), hasValue_ofNat le_rfl⟩
  have hne : toRat (Float.ofNat n) ≠ 0 := hvalue.toRat_eq ▸ hq
  have hquotient := ordinal_div hvalue.finite hvalue.finite hne
  rw [div_self hne, ← hasValue_one.ordinal_eq] at hquotient
  exact (eq_of_ordinal (by decide) hquotient.symm).symm

theorem sum_append (xs ys : List Float) : sum (xs ++ ys) = ys.foldl (· + ·) (sum xs) :=
  List.foldl_append

theorem sum_replicate_one_succ (n : Nat) :
    sum (List.replicate (n + 1) 1.0) = sum (List.replicate n 1.0) + 1.0 := by
  rw [List.replicate_succ', sum_append]
  rfl

theorem sum_replicate_one (hn : n ≠ 0) (hle : n ≤ 2 ^ 53 + 1) :
    sum (List.replicate n 1.0) = Float.ofNat n := by
  induction n with
  | zero => exact absurd rfl hn
  | succ n ih =>
      rw [sum_replicate_one_succ]
      by_cases hzero : n = 0
      · rw [hzero]
        decide
      · rw [ih hzero (Nat.le_of_succ_le hle), ofNat_add_one (Nat.le_of_succ_le_succ hle)]

theorem mean_replicate_one (hn : n ≠ 0) (hle : n ≤ 2 ^ 53 + 1) :
    mean (List.replicate n 1.0) = 1.0 := by
  have hne : List.replicate n (1.0 : Float) ≠ [] := by
    rwa [Ne, List.replicate_eq_nil_iff]
  rw [mean_of_ne_nil hne, sum_replicate_one hn hle, count, List.length_replicate,
    ofNat_div_self hn hle]

theorem sum_replicate_one_of_ge (k : Nat) :
    sum (List.replicate (2 ^ 53 + k) 1.0) = Float.ofNat (2 ^ 53) := by
  induction k with
  | zero => exact sum_replicate_one (by decide) (by decide)
  | succ k ih => rw [← Nat.add_assoc, sum_replicate_one_succ, ih, ofNat_limit_add_one]

theorem mean_replicate_one_of_eq (hn : n = 2 ^ 53 + 2) :
    mean (List.replicate n 1.0) ≠ 1.0 := by
  have hne : List.replicate n (1.0 : Float) ≠ [] := by
    rw [Ne, List.replicate_eq_nil_iff, hn]
    decide
  rw [mean_of_ne_nil hne, count, List.length_replicate, hn, sum_replicate_one_of_ge]
  decide

end RuleInduction.FloatCount
