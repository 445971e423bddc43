import RuleInduction.Proofs.Average

namespace RuleInduction.FloatMagnitude

open Binary64 FloatValue FloatRounding FloatArithmetic FloatBounds FloatCount
open Decimal (unsigned)
open Float.Model (UnpackedFloat)
open Float.Model.UnpackedFloat (Sign)

variable {x y c : Float} {p q r : ℚ}

section Representable

theorem exists_ordinal {n : ℕ} (h : n < infinityBits) : ∃ y : Float, ordinal y = n := by
  rcases Nat.eq_zero_or_pos n with rfl | hpos
  · exact ⟨0.0, by decide⟩
  · refine ⟨packed (.finite .positive (value n).mantissa (value n).exponent
      (legal_value hpos).pos), ?_⟩
    rw [ordinal_packed_finite _ (legal_value hpos), ofRat_value h]
    rfl

-- The value of a float that is not negative.
structure Exact (r : ℚ) : Prop where
  nonneg : 0 ≤ r
  exists_float : ∃ c, HasValue c r

theorem exact_zero : Exact 0 :=
  ⟨le_rfl, _, hasValue_zero⟩

theorem exact_of_legal {v : Binary64.Dyadic} (hv : Legal v) (hmax : v.exponent ≤ 971) :
    Exact v.toRat := by
  have hlt := hv.lt
  obtain ⟨c, hc⟩ := exists_ordinal (n := (v.exponent + 1074).toNat * 2 ^ 52 + v.mantissa) (by
    change _ < 2047 * 2 ^ 52
    omega)
  exact ⟨hv.toRat_pos.le, c, hasValue_of_place hv hmax hc⟩

theorem exact_mul_two_pow {n e : ℕ} (hn : n ≤ 2 ^ 53) (he : e + n.log2 ≤ 1023) :
    Exact (n * 2 ^ e) := by
  by_cases hzero : n = 0
  · rw [hzero, Nat.cast_zero, zero_mul]
    exact exact_zero
  · obtain ⟨v, hv, hexponent, hvalue⟩ := exists_legal hzero hn
    have hlegal : Legal ⟨v.mantissa, v.exponent + e⟩ :=
      ⟨hv.pos, hv.lt, by have := hv.min_le; dsimp only; omega,
        fun _ => hv.full (by omega)⟩
    have hscaled : Binary64.Dyadic.toRat ⟨v.mantissa, v.exponent + e⟩ = n * 2 ^ e := by
      rw [← hvalue, Binary64.Dyadic.toRat, Binary64.Dyadic.toRat, zpow_add₀ two_ne_zero,
        zpow_natCast, mul_assoc]
    rw [← hscaled]
    exact exact_of_legal hlegal (by dsimp only; omega)

theorem exact_two_pow {e : ℕ} (he : e ≤ 1023) : Exact (2 ^ e) := by
  have h := exact_mul_two_pow (n := 1) (e := e) (by decide) he
  rwa [Nat.cast_one, one_mul] at h

end Representable

section Rounding

theorem zero_le_iff_toRat (hx : x.isFinite = true) : 0.0 ≤ x ↔ 0 ≤ toRat x := by
  rw [le_iff_toRat hasValue_zero.finite hx, hasValue_zero.toRat_eq]

theorem natAbs_rounded (q : ℚ) : (rounded q).natAbs = ofRat |q| := by
  rw [rounded]
  split
  · next h => rw [abs_of_nonneg h, Int.natAbs_natCast]
  · next h => rw [abs_of_neg (not_le.1 h), Int.natAbs_neg, Int.natAbs_natCast]

theorem abs_toRat (x : Float) : |toRat x| = (value (unsigned x)).toRat := by
  rw [toRat]
  cases sign x with
  | negative => rw [signed, abs_neg, abs_of_nonneg (toRat_nonneg _)]
  | positive => rw [signed, abs_of_nonneg (toRat_nonneg _)]

theorem toRat_value_mono {m n : ℕ} (hmn : m ≤ n) (hn : n < infinityBits) :
    (value m).toRat ≤ (value n).toRat := by
  by_contra hlt
  have hle := ofRat_mono (toRat_nonneg _) (not_le.1 hlt).le
  rw [ofRat_value hn, ofRat_value (hmn.trans_lt hn)] at hle
  exact hlt (Nat.le_antisymm hmn hle ▸ le_rfl)

-- The sum of a power of two and half the distance to the next float is a tie, and the power of two
-- is even.
theorem ofRat_two_pow_add (e : ℕ) : ofRat (2 ^ (e + 53) + 2 ^ e) = ofRat (2 ^ (e + 53)) := by
  have hpos : (0 : ℚ) < 2 ^ e := pow_pos two_pos e
  have hsplit : (2 : ℚ) ^ (e + 53) = 2 ^ 53 * 2 ^ e := by rw [pow_add, mul_comm]
  have hlegal : Legal ⟨2 ^ 52, e + 1⟩ :=
    ⟨Nat.two_pow_pos 52, Nat.pow_lt_pow_succ one_lt_two, by dsimp only; omega, fun _ => le_rfl⟩
  have hpower : Binary64.Dyadic.toRat ⟨2 ^ 52, e + 1⟩ = 2 ^ (e + 53) := by
    rw [Binary64.Dyadic.toRat, zpow_add₀ two_ne_zero, zpow_natCast, zpow_one, hsplit]
    push_cast
    ring
  have hlog : Int.log 2 ((2 : ℚ) ^ (e + 53) + 2 ^ e) = e + 53 := by
    have hsum : (0 : ℚ) < 2 ^ (e + 53) + 2 ^ e := by positivity
    have hlower : (2 : ℚ) ^ ((e + 53 : ℕ) : ℤ) ≤ 2 ^ (e + 53) + 2 ^ e := by
      rw [zpow_natCast]
      exact le_add_of_nonneg_right hpos.le
    have hupper : (2 : ℚ) ^ (e + 53) + 2 ^ e < 2 ^ ((e + 54 : ℕ) : ℤ) := by
      rw [zpow_natCast, hsplit, pow_add]
      linarith
    have := (Int.zpow_le_iff_le_log one_lt_two hsum).1 hlower
    have := (Int.lt_zpow_iff_log_lt one_lt_two hsum).1 hupper
    omega
  have hunit : unit ((2 : ℚ) ^ (e + 53) + 2 ^ e) = e + 1 := by
    rw [unit, hlog]
    omega
  have hscaled : ((2 : ℚ) ^ (e + 53) + 2 ^ e) / 2 ^ ((e : ℤ) + 1) = 2 ^ 52 + 1 / 2 := by
    rw [zpow_add₀ two_ne_zero, zpow_natCast, zpow_one, hsplit]
    field_simp
  have htie : roundWhole (2 ^ 52 + 1 / 2) = 2 ^ 52 := by
    have hfloor : ⌊(2 ^ 52 + 1 / 2 : ℚ)⌋₊ = 2 ^ 52 := by
      rw [Nat.floor_eq_iff (by norm_num)]
      norm_num
    rw [roundWhole]
    simp only [hfloor]
    norm_num
  rw [← hpower, hlegal.ofRat_eq, hpower, ofRat, if_neg (by positivity), hunit, hscaled, htie]

theorem ofRat_two_pow_add_le {e k : ℕ} (h : k + 53 ≤ e) :
    ofRat (2 ^ e + 2 ^ k) ≤ ofRat (2 ^ e) := by
  obtain ⟨d, rfl⟩ := Nat.exists_eq_add_of_le' ((Nat.le_add_left 53 k).trans h)
  rw [← ofRat_two_pow_add]
  refine ofRat_mono (by positivity) (add_le_add_right ?_ _)
  exact pow_le_pow_right₀ one_le_two (by omega)

end Rounding

structure AtMost (x : Float) (r : ℚ) : Prop where
  finite : x.isFinite = true
  abs_le : |toRat x| ≤ r

theorem AtMost.mono (h : AtMost x p) (hpr : p ≤ r) : AtMost x r :=
  ⟨h.finite, h.abs_le.trans hpr⟩

theorem AtMost.nonneg (h : AtMost x r) : 0 ≤ r :=
  (abs_nonneg _).trans h.abs_le

theorem atMost_of_hasValue (h : HasValue x r) (hr : 0 ≤ r) : AtMost x r :=
  ⟨h.finite, by rw [h.toRat_eq, abs_of_nonneg hr]⟩

theorem atMost_of_unsigned_le (hr : 0 ≤ r) (hc : HasValue c r) (h : unsigned x ≤ unsigned c) :
    AtMost x r := by
  have hfinite := Decimal.isFinite_iff.1 hc.finite
  refine ⟨Decimal.isFinite_iff.2 (h.trans_lt hfinite), ?_⟩
  rw [abs_toRat, ← abs_of_nonneg hr, ← hc.toRat_eq, abs_toRat]
  exact toRat_value_mono h hfinite

theorem atMost_of_ordinal (hr : Exact r) (h : ordinal x = rounded q)
    (hle : ofRat |q| ≤ ofRat r) : AtMost x r := by
  obtain ⟨hnonneg, c, hc⟩ := hr
  refine atMost_of_unsigned_le hnonneg hc ?_
  rw [← natAbs_ordinal, ← natAbs_ordinal, h, hc.ordinal_eq, natAbs_rounded, natAbs_rounded,
    abs_of_nonneg hnonneg]
  exact hle

theorem atMost_of_ordinal_zero (hr : Exact r) (h : ordinal x = rounded 0) : AtMost x r := by
  refine atMost_of_ordinal hr h (ofRat_mono (abs_nonneg _) ?_)
  rw [abs_zero]
  exact hr.nonneg

section Operations

variable (hx : AtMost x p) (hy : AtMost y q) (hr : Exact r)

include hx

theorem AtMost.div {d : ℚ} (hy : y.isFinite = true) (hd : 0 < d) (hdy : d ≤ toRat y)
    (hr : Exact r) (h : p / d ≤ r) : AtMost (x / y) r := by
  have hpos : 0 < toRat y := hd.trans_le hdy
  refine atMost_of_ordinal hr (ordinal_div hx.finite hy hpos.ne') (ofRat_mono (abs_nonneg _) ?_)
  rw [abs_div, abs_of_pos hpos]
  exact (div_le_div₀ hx.nonneg hx.abs_le hd hdy).trans h

include hy hr

theorem AtMost.add (h : ofRat (p + q) ≤ ofRat r) : AtMost (x + y) r := by
  refine atMost_of_ordinal hr (ordinal_add hx.finite hy.finite) (le_trans ?_ h)
  exact ofRat_mono (abs_nonneg _) ((abs_add_le _ _).trans (add_le_add hx.abs_le hy.abs_le))

theorem AtMost.sub (h : ofRat (p + q) ≤ ofRat r) : AtMost (x - y) r := by
  refine atMost_of_ordinal hr (ordinal_sub hx.finite hy.finite) (le_trans ?_ h)
  exact ofRat_mono (abs_nonneg _) ((abs_sub _ _).trans (add_le_add hx.abs_le hy.abs_le))

theorem AtMost.mul (h : p * q ≤ r) : AtMost (x * y) r := by
  refine atMost_of_ordinal hr (ordinal_mul hx.finite hy.finite) (ofRat_mono (abs_nonneg _) ?_)
  rw [abs_mul]
  exact (mul_le_mul hx.abs_le hy.abs_le (abs_nonneg _) hx.nonneg).trans h

end Operations

-- Beside a number as great as this, one is lost.
theorem AtMost.one_sub {e : ℕ} (hx : AtMost x (2 ^ e)) (hlarge : 53 ≤ e) (he : e ≤ 1023) :
    AtMost (1.0 - x) (2 ^ e) := by
  refine (atMost_of_hasValue hasValue_one zero_le_one).sub hx (exact_two_pow he) ?_
  rw [add_comm, ← pow_zero 2]
  exact ofRat_two_pow_add_le (by omega)

section Operands

theorem isFinite_of_packed {u : UnpackedFloat} (h : (packed u).isFinite = true) :
    u.isFinite = true := by
  cases u with
  | notANumber => cases h
  | infinity s => cases s <;> cases h
  | zero s => rfl
  | finite s m e hm => rfl

theorem isFinite_of_add (h : (x + y).isFinite = true) : x.isFinite = true ∧ y.isFinite = true := by
  replace h := isFinite_of_packed (u := .add .binary64 x.toModel.unpack y.toModel.unpack) h
  change x.toModel.unpack.isFinite = true ∧ y.toModel.unpack.isFinite = true
  generalize x.toModel.unpack = u, y.toModel.unpack = v at h ⊢
  cases u <;> cases v <;> simp [UnpackedFloat.add, UnpackedFloat.isFinite] at h ⊢
  -- What is left are two infinities, which may cancel each other.
  split_ifs at h

theorem isFinite_of_mul (h : (x * y).isFinite = true) : x.isFinite = true ∧ y.isFinite = true := by
  replace h := isFinite_of_packed (u := .mul .binary64 x.toModel.unpack y.toModel.unpack) h
  change x.toModel.unpack.isFinite = true ∧ y.toModel.unpack.isFinite = true
  generalize x.toModel.unpack = u, y.toModel.unpack = v at h ⊢
  cases u <;> cases v <;> simp [UnpackedFloat.mul, UnpackedFloat.isFinite] at h ⊢

theorem isFinite_of_div (h : (x / y).isFinite = true) : x.isFinite = true := by
  replace h := isFinite_of_packed (u := .div .binary64 x.toModel.unpack y.toModel.unpack) h
  change x.toModel.unpack.isFinite = true
  generalize x.toModel.unpack = u, y.toModel.unpack = v at h ⊢
  cases u <;> cases v <;> simp [UnpackedFloat.div, UnpackedFloat.isFinite] at h ⊢

end Operands

section Sums

variable {s w : Float} {ws : List Float} {n e : ℕ}

theorem log2_mono {m n : ℕ} (h : m ≤ n) : m.log2 ≤ n.log2 := by
  rw [Nat.log2_eq_log_two, Nat.log2_eq_log_two]
  exact Nat.log_mono_right h

theorem log2_min_le (n : ℕ) : (min n (2 ^ 53)).log2 ≤ 53 :=
  log2_le (min_le_right n _)

theorem AtMost.add_two_pow (hs : AtMost s ((min n (2 ^ 53) : ℕ) * 2 ^ e)) (hw : AtMost w (2 ^ e))
    (he : e + (min (n + 1) (2 ^ 53)).log2 ≤ 1023) :
    AtMost (s + w) ((min (n + 1) (2 ^ 53) : ℕ) * 2 ^ e) := by
  have hexact := exact_mul_two_pow (min_le_right (n + 1) (2 ^ 53)) he
  refine hs.add hw hexact ?_
  rcases Nat.lt_or_ge n (2 ^ 53) with hlt | hge
  · rw [min_eq_left hlt.le, min_eq_left (Nat.succ_le_of_lt hlt), Nat.cast_succ, add_one_mul]
  · have hlimit : ((2 ^ 53 : ℕ) : ℚ) * 2 ^ e = 2 ^ (e + 53) := by
      rw [pow_add, mul_comm, Nat.cast_pow, Nat.cast_ofNat]
    rw [min_eq_right hge, min_eq_right (hge.trans (Nat.le_succ n)), hlimit]
    exact (ofRat_two_pow_add e).le

theorem isFinite_of_foldl (h : (ws.foldl (· + ·) s).isFinite = true) :
    s.isFinite = true ∧ ∀ w ∈ ws, w.isFinite = true := by
  induction ws generalizing s with
  | nil => exact ⟨h, nofun⟩
  | cons w ws ih =>
      obtain ⟨hnext, hrest⟩ := ih h
      obtain ⟨hs, hw⟩ := isFinite_of_add hnext
      exact ⟨hs, List.forall_mem_cons.2 ⟨hw, hrest⟩⟩

theorem atMost_foldl (hs : AtMost s ((min n (2 ^ 53) : ℕ) * 2 ^ e))
    (hw : ∀ w ∈ ws, AtMost w (2 ^ e)) (he : e + (min (n + ws.length) (2 ^ 53)).log2 ≤ 1023) :
    AtMost (ws.foldl (· + ·) s) ((min (n + ws.length) (2 ^ 53) : ℕ) * 2 ^ e) := by
  induction ws generalizing s n with
  | nil => exact hs
  | cons w ws ih =>
      obtain ⟨hfirst, hrest⟩ := List.forall_mem_cons.1 hw
      have hlength : n + (w :: ws).length = n + 1 + ws.length := by
        rw [List.length_cons]
        omega
      rw [hlength] at he ⊢
      have hmono := log2_mono (min_le_min_right (2 ^ 53) (Nat.le_add_right (n + 1) ws.length))
      exact ih (hs.add_two_pow hfirst (by omega)) hrest he

theorem atMost_sum (hw : ∀ w ∈ ws, AtMost w (2 ^ e))
    (he : e + (min ws.length (2 ^ 53)).log2 ≤ 1023) :
    AtMost (sum ws) ((min ws.length (2 ^ 53) : ℕ) * 2 ^ e) := by
  have hzero : AtMost (-0.0) ((min 0 (2 ^ 53) : ℕ) * 2 ^ e) := by
    rw [Nat.zero_min, Nat.cast_zero, zero_mul]
    exact atMost_of_ordinal_zero exact_zero (by rw [rounded_zero]; decide)
  rw [← Nat.zero_add ws.length] at he ⊢
  exact atMost_foldl hzero hw he

theorem ordinal_div_infinity (hx : x.isFinite = true) {s : Sign}
    (hy : y.toModel.unpack = .infinity s) : ordinal (x / y) = rounded 0 := by
  change ordinal (packed (.div .binary64 x.toModel.unpack y.toModel.unpack)) = _
  rw [hy, rounded_zero]
  rcases unpack_of_isFinite hx with ⟨hu, -⟩ | ⟨v, hv, hu, -⟩ <;> rw [hu] <;>
    exact ordinal_packed_zero _

-- Beyond the greatest float a count is infinite, and a quotient by it is zero.
theorem div_count_cases (hx : x.isFinite = true) (hn : n ≠ 0) :
    ((Float.ofNat n).isFinite = true ∧ (0 : ℚ) < (min n (2 ^ 53) : ℕ) ∧
        ((min n (2 ^ 53) : ℕ) : ℚ) ≤ toRat (Float.ofNat n)) ∨
      ordinal (x / Float.ofNat n) = rounded 0 := by
  rcases number_cases (isNaN_of_ordinal (ordinal_ofNat n)) with hfinite | ⟨s, hinfinite, -⟩
  · have hcapped := hasValue_ofNat (min_le_right n (2 ^ 53))
    refine Or.inl ⟨hfinite, ?_, ?_⟩
    · exact Nat.cast_pos.2 (lt_min (Nat.pos_of_ne_zero hn) (Nat.two_pow_pos 53))
    · rw [← hcapped.toRat_eq]
      exact (le_iff_toRat hcapped.finite hfinite).1 (ofNat_le_ofNat (min_le_left _ _))
  · exact Or.inr (ordinal_div_infinity hx hinfinite)

theorem AtMost.div_count (hx : AtMost x ((min n (2 ^ 53) : ℕ) * r)) (hn : n ≠ 0) (hr : Exact r) :
    AtMost (x / Float.ofNat n) r := by
  rcases div_count_cases hx.finite hn with ⟨hfinite, hpos, hle⟩ | hzero
  · exact hx.div hfinite hpos hle hr (mul_div_cancel_left₀ _ hpos.ne').le
  · exact atMost_of_ordinal_zero hr hzero

theorem zero_le_div_count (hx : x.isFinite = true) (h : 0.0 ≤ x) (hn : n ≠ 0) :
    0.0 ≤ x / Float.ofNat n := by
  rcases div_count_cases hx hn with ⟨hfinite, hpos, hle⟩ | hzero
  · refine ge_of_ordinal hasValue_zero (ordinal_div hx hfinite (hpos.trans_le hle).ne') ?_
    exact div_nonneg ((zero_le_iff_toRat hx).1 h) (hpos.le.trans hle)
  · exact ge_of_ordinal hasValue_zero hzero le_rfl

-- A part of a whole is at most one, if floats can count it.
theorem atMost_part {k : ℕ} (hn : n ≠ 0) (hkn : k ≤ n)
    (hfinite : (Float.ofNat k).isFinite = true) : AtMost (Float.ofNat k / Float.ofNat n) 1 := by
  have hone : Exact 1 := ⟨zero_le_one, _, hasValue_one⟩
  have hk := (zero_le_iff_toRat hfinite).1
    (ge_of_ordinal hasValue_zero (ordinal_ofNat k) (Nat.cast_nonneg k))
  have hpart : AtMost (Float.ofNat k) (toRat (Float.ofNat k)) := ⟨hfinite, (abs_of_nonneg hk).le⟩
  rcases div_count_cases hfinite hn with ⟨hwhole, hpos, hle⟩ | hzero
  · have hn' := hpos.trans_le hle
    have hle' := (le_iff_toRat hfinite hwhole).1 (ofNat_le_ofNat hkn)
    exact hpart.div hwhole hn' le_rfl hone ((div_le_one hn').2 hle')
  · exact atMost_of_ordinal_zero hone hzero

theorem atMost_mean (hw : ∀ w ∈ ws, AtMost w (2 ^ e)) (he : e ≤ 970) : AtMost (mean ws) (2 ^ e) := by
  by_cases hne : ws = []
  · rw [hne, mean_nil]
    exact (atMost_of_hasValue hasValue_zero le_rfl).mono (by positivity)
  · have hlog := log2_min_le ws.length
    rw [mean_of_ne_nil hne]
    exact (atMost_sum hw (by omega)).div_count (List.length_pos_of_ne_nil hne).ne'
      (exact_two_pow (by omega))

end Sums

end RuleInduction.FloatMagnitude
