import RuleInduction.Proofs.FloatMagnitude
import RuleInduction.Random.Weighted

namespace RuleInduction.Random

open FloatValue FloatArithmetic FloatBounds FloatCount FloatMagnitude
open Float.Model.UnpackedFloat (Sign)

section Sums

variable {t w c point : Float} {ws : List Float}

theorem getLastD_go (t d : Float) (ws : List Float) :
    (cumulative.go t ws).getLastD d = ws.foldl (· + ·) t := by
  induction ws generalizing t d with
  | nil => rfl
  | cons w ws ih =>
      rw [cumulative.go, List.getLastD_cons, List.foldl_cons]
      exact ih (t + w) t

theorem total_cons (w : Float) (ws : List Float) : total (w :: ws) = ws.foldl (· + ·) w :=
  getLastD_go w 0.0 ws

theorem atMost_total {e : ℕ} (hw : ∀ w ∈ ws, AtMost w (2 ^ e))
    (he : e + (min ws.length (2 ^ 53)).log2 ≤ 1023) :
    AtMost (total ws) ((min ws.length (2 ^ 53) : ℕ) * 2 ^ e) := by
  cases ws with
  | nil => exact (atMost_of_hasValue hasValue_zero le_rfl).mono (by positivity)
  | cons w ws =>
      obtain ⟨hfirst, hrest⟩ := List.forall_mem_cons.1 hw
      have hone : AtMost w ((min 1 (2 ^ 53) : ℕ) * 2 ^ e) := by
        rwa [min_eq_left Nat.one_le_two_pow, Nat.cast_one, one_mul]
      rw [List.length_cons, Nat.add_comm ws.length] at he ⊢
      rw [total_cons]
      exact atMost_foldl hone hrest he

theorem le_self_add (ht : t.isFinite = true) (hw : 0.0 ≤ w) : t ≤ t + w := by
  have hvalue : HasValue t (toRat t) := ⟨ht, rfl⟩
  exact le_add hvalue hasValue_zero hvalue (FloatOrder.le_refl hvalue.isNaN_eq) hw (add_zero _).ge

-- A weight that is absorbed need not be zero, but one that is not absorbed is positive.
theorem pos_of_lt_add (ht : t.isFinite = true) (hw : 0.0 ≤ w) (h : t < t + w) : 0.0 < w := by
  refine FloatOrder.lt_of_not_ge rfl (FloatOrder.isNaN_of_le hw).2 fun hle => ?_
  have hvalue : HasValue t (toRat t) := ⟨ht, rfl⟩
  refine FloatOrder.not_lt_of_ge ?_ h
  exact add_le hvalue hasValue_zero hvalue (FloatOrder.le_refl hvalue.isNaN_eq) hle (add_zero _).le

theorem le_of_mem_go (hw : ∀ w ∈ ws, 0.0 ≤ w) (hfinite : (ws.foldl (· + ·) t).isFinite = true)
    (hc : c ∈ cumulative.go t ws) : t ≤ c := by
  have ht := (isFinite_of_foldl hfinite).1
  induction ws generalizing t with
  | nil =>
      obtain rfl := List.mem_singleton.1 hc
      exact FloatOrder.le_refl (FloatOrder.isNaN_of_isFinite ht)
  | cons w ws ih =>
      obtain ⟨hfirst, hrest⟩ := List.forall_mem_cons.1 hw
      rcases List.mem_cons.1 hc with rfl | hc
      · exact FloatOrder.le_refl (FloatOrder.isNaN_of_isFinite ht)
      · refine FloatOrder.le_trans (le_self_add ht hfirst) ?_
        exact ih hrest hfinite hc (isFinite_of_foldl (s := t + w) hfinite).1

theorem go_ne_nil (t : Float) (ws : List Float) : cumulative.go t ws ≠ [] := by
  cases ws <;> exact List.cons_ne_nil _ _

theorem countP_go_cons (t w point : Float) (ws : List Float) :
    (cumulative.go t (w :: ws)).dropLast.countP (fun c => c ≤ point) =
      (cumulative.go (t + w) ws).dropLast.countP (fun c => c ≤ point) +
        if t ≤ point then 1 else 0 := by
  rw [cumulative.go, List.dropLast_cons_of_ne_nil (go_ne_nil _ _), List.countP_cons]
  simp only [decide_eq_true_eq]

-- The sums grow only where a weight is positive, so the first sum beyond the point is the first one
-- of all or that of a positive weight.
theorem place_go (hw : ∀ w ∈ ws, 0.0 ≤ w) (hfinite : (ws.foldl (· + ·) t).isFinite = true)
    (hpoint : point < ws.foldl (· + ·) t) :
    let i := (cumulative.go t ws).dropLast.countP fun c => c ≤ point
    (i = 0 ∧ point < t) ∨ ∃ k w, i = k + 1 ∧ ws[k]? = some w ∧ 0.0 < w := by
  have ht := FloatOrder.isNaN_of_isFinite (isFinite_of_foldl hfinite).1
  have hnum := FloatOrder.isNaN_of_lt hpoint
  induction ws generalizing t with
  | nil => exact Or.inl ⟨rfl, hpoint⟩
  | cons w ws ih =>
      obtain ⟨hfirst, hrest⟩ := List.forall_mem_cons.1 hw
      have hnext := (isFinite_of_foldl (s := t + w) hfinite).1
      simp only [countP_go_cons]
      by_cases hle : t ≤ point
      · rw [if_pos hle]
        rcases ih hrest hfinite hpoint (FloatOrder.isNaN_of_isFinite hnext) with
          ⟨hzero, hlt⟩ | ⟨k, v, hk, hv, hpos⟩
        · exact Or.inr ⟨0, w, by rw [hzero], rfl, pos_of_lt_add (isFinite_of_add hnext).1 hfirst
            (FloatOrder.lt_of_le_of_lt hle hlt)⟩
        · exact Or.inr ⟨k + 1, v, by rw [hk], hv, hpos⟩
      · have hlt := FloatOrder.lt_of_not_ge hnum ht hle
        refine Or.inl ⟨?_, hlt⟩
        rw [if_neg hle, Nat.add_zero, List.countP_eq_zero]
        intro c hc hcp
        have htc := FloatOrder.le_trans (le_self_add (isFinite_of_add hnext).1 hfirst)
          (le_of_mem_go hrest hfinite (List.mem_of_mem_dropLast hc))
        exact hle (FloatOrder.le_trans htc (of_decide_eq_true hcp))

theorem placeOf_pos (hw : ∀ w ∈ ws, 0.0 ≤ w) (hfinite : (total ws).isFinite = true)
    (hzero : 0.0 ≤ point) (hpoint : point < total ws) :
    ∃ w, ws[placeOf ws point]? = some w ∧ 0.0 < w := by
  cases ws with
  | nil => exact absurd hpoint (FloatOrder.not_lt_of_ge hzero)
  | cons w ws =>
      rw [total_cons] at hfinite hpoint
      rcases place_go (List.forall_mem_cons.1 hw).2 hfinite hpoint with
        ⟨hi, hlt⟩ | ⟨k, v, hi, hv, hpos⟩
      · refine ⟨w, ?_, FloatOrder.lt_of_le_of_lt hzero hlt⟩
        rw [placeOf, cumulative, hi]
        rfl
      · refine ⟨v, ?_, hpos⟩
        rw [placeOf, cumulative, hi]
        exact hv

theorem foldl_bounds (ht : 0.0 ≤ t) (hw : ∀ w ∈ ws, 0.0 ≤ w)
    (hfinite : (ws.foldl (· + ·) t).isFinite = true) :
    t ≤ ws.foldl (· + ·) t ∧ ∀ w ∈ ws, w ≤ ws.foldl (· + ·) t := by
  induction ws generalizing t with
  | nil => exact ⟨FloatOrder.le_refl (FloatOrder.isNaN_of_isFinite hfinite), nofun⟩
  | cons w ws ih =>
      obtain ⟨hfirst, hrest⟩ := List.forall_mem_cons.1 hw
      obtain ⟨htfinite, hwfinite⟩ := isFinite_of_add (isFinite_of_foldl (s := t + w) hfinite).1
      have hstep := le_self_add htfinite hfirst
      have hvalue : HasValue w (toRat w) := ⟨hwfinite, rfl⟩
      have hmember : w ≤ t + w := le_add hasValue_zero hvalue hvalue ht
        (FloatOrder.le_refl hvalue.isNaN_eq) (zero_add _).ge
      obtain ⟨hnext, hall⟩ := ih (FloatOrder.le_trans ht hstep) hrest hfinite
      exact ⟨FloatOrder.le_trans hstep hnext,
        List.forall_mem_cons.2 ⟨FloatOrder.le_trans hmember hnext, hall⟩⟩

theorem le_total (hw : ∀ w ∈ ws, 0.0 ≤ w) (hfinite : (total ws).isFinite = true) :
    ∀ w ∈ ws, w ≤ total ws := by
  cases ws with
  | nil => nofun
  | cons w ws =>
      obtain ⟨hfirst, hrest⟩ := List.forall_mem_cons.1 hw
      rw [total_cons] at hfinite ⊢
      exact List.forall_mem_cons.2 (foldl_bounds hfirst hrest hfinite)

theorem zero_le_total (hw : ∀ w ∈ ws, 0.0 ≤ w) (hfinite : (total ws).isFinite = true) :
    0.0 ≤ total ws := by
  cases ws with
  | nil => decide
  | cons w ws =>
      exact FloatOrder.le_trans (hw w List.mem_cons_self)
        (le_total hw hfinite w List.mem_cons_self)

end Sums

section Point

variable {G : Type} [RandomSource G] {x t : Float} {n : ℕ}

theorem toNat_toBits (h : 0 < ordinal x) : (x.toBits.toNat : ℤ) = ordinal x := by
  rw [ordinal, sign] at h ⊢
  cases hneg : Decimal.isNegative x with
  | true =>
      rw [hneg, if_pos rfl, Sign.apply] at h
      omega
  | false =>
      have hsmall : x.toBits.toNat < 2 ^ 63 := Nat.not_le.1 (of_decide_eq_false hneg)
      rw [if_neg Bool.false_ne_true, Sign.apply, Decimal.unsigned, Nat.mod_eq_of_lt hsmall]

theorem ordinal_ofBits {bits : UInt64} (h : bits.toNat < Binary64.infinityBits) :
    ordinal (.ofBits bits) = bits.toNat := by
  rcases Nat.eq_zero_or_pos bits.toNat with hzero | hpos
  · obtain rfl : bits = 0 := UInt64.toNat_inj.1 hzero
    decide
  · obtain ⟨y, hy⟩ := exists_ordinal h
    have hbits : y.toBits = bits := by
      have := toNat_toBits (x := y) (by omega)
      exact UInt64.toNat_inj.1 (by omega)
    rw [← hbits, Float.ofBits_toBits, hy, hbits]

theorem hasValue_epsilon : HasValue epsilon (2 ^ (-52 : ℤ)) :=
  hasValue_two_pow (e := -104) (by decide) (by decide) (by decide)

theorem hasValue_greatest_fraction : HasValue (1.0 - epsilon) (1 - 2 ^ (-52 : ℤ)) := by
  have hlegal : Binary64.Legal ⟨2 ^ 53 - 2, -53⟩ := ⟨by decide, by decide, by decide, by decide⟩
  have hvalue := hasValue_of_place (x := 1.0 - epsilon) hlegal (by decide) (by decide)
  rw [Binary64.Dyadic.toRat] at hvalue
  norm_num at hvalue ⊢
  exact hvalue

theorem ordinal_below (h : ordinal x = (n + 1 : ℕ)) (hn : n < Binary64.infinityBits) :
    ordinal (.ofBits (x.toBits - 1)) = n := by
  have hbits := toNat_toBits (x := x) (by omega)
  have hbelow : (x.toBits - 1).toNat = n := by
    rw [UInt64.toNat_sub_of_le _ _ (UInt64.le_iff_toNat_le.2 (by rw [UInt64.toNat_one]; omega)),
      UInt64.toNat_one]
    omega
  rw [ordinal_ofBits (hbelow ▸ hn), hbelow]

-- One step goes down by one float, so if the steps are as many as the bits of the scale, the last
-- one reaches zero.
theorem scaleWithin_spec (ht : 0.0 < t) (htfinite : t.isFinite = true) (hx : ordinal x = n)
    (hn : n < Binary64.infinityBits) :
    0.0 ≤ scaleWithin t n x ∧ (scaleWithin t n x).isFinite = true ∧
      scaleWithin t n x * (1.0 - epsilon) < t := by
  have htnumber := FloatOrder.isNaN_of_isFinite htfinite
  induction n generalizing x with
  | zero =>
      have hzero : HasValue x 0 := hasValue_zero.of_ordinal_eq hx
      have hproduct := ordinal_mul hzero.finite hasValue_greatest_fraction.finite
      refine ⟨(le_iff_ordinal rfl hzero.isNaN_eq).2 hx.ge, hzero.finite, ?_⟩
      rw [scaleWithin, lt_iff_ordinal (isNaN_of_ordinal hproduct) htnumber, hproduct,
        hzero.toRat_eq, zero_mul, rounded_zero]
      exact (lt_iff_ordinal rfl htnumber).1 ht
  | succ n ih =>
      have hxfinite : x.isFinite = true := by
        rw [Decimal.isFinite_iff, ← natAbs_ordinal, hx]
        exact hn
      have hxnumber := FloatOrder.isNaN_of_isFinite hxfinite
      have hproduct := ordinal_mul hxfinite hasValue_greatest_fraction.finite
      rw [scaleWithin]
      split
      · exact ih (ordinal_below hx (by omega)) (by omega)
      · next hlt =>
          refine ⟨?_, hxfinite, FloatOrder.lt_of_not_ge (isNaN_of_ordinal hproduct) htnumber hlt⟩
          rw [le_iff_ordinal rfl hxnumber, hx]
          exact Int.natCast_nonneg _

theorem scale_spec (ht : 0.0 < t) (hfinite : t.isFinite = true) :
    0.0 ≤ scale t ∧ (scale t).isFinite = true ∧ scale t * (1.0 - epsilon) < t := by
  have hpos := (lt_iff_ordinal rfl (FloatOrder.isNaN_of_isFinite hfinite)).1 ht
  have hbits := toNat_toBits hpos
  have hlt := ordinal_lt hfinite
  exact scaleWithin_spec ht hfinite hbits.symm (by omega)

theorem fraction_bounds (g : G) : 0.0 ≤ (fraction g).1 ∧ (fraction g).1 ≤ 1.0 - epsilon := by
  let word := (RandomSource.word64 g).1 >>> 12
  have hword : word.toNat < 2 ^ 52 := by
    have := (RandomSource.word64 g).1.toNat_lt
    rw [UInt64.toNat_shiftRight, Nat.shiftRight_eq_div_pow]
    change (RandomSource.word64 g).1.toNat / 2 ^ 12 < 2 ^ 52
    omega
  have hordinal : ordinal word.toFloat = rounded word.toNat := by
    have hround := ordinal_toUInt64 (hword.trans (by decide))
    rwa [Nat.toUInt64, UInt64.ofNat_toNat] at hround
  have hvalue : HasValue word.toFloat word.toNat :=
    (hasValue_ofNat (hword.le.trans (by decide))).of_ordinal_eq
      (hordinal.trans (ordinal_ofNat _).symm)
  have hproduct := ordinal_mul hvalue.finite hasValue_epsilon.finite
  rw [hvalue.toRat_eq, hasValue_epsilon.toRat_eq] at hproduct
  refine ⟨ge_of_ordinal hasValue_zero hproduct (by positivity),
    le_of_ordinal hasValue_greatest_fraction hproduct ?_⟩
  have hle : (word.toNat : ℚ) ≤ 2 ^ 52 - 1 := by
    rw [le_sub_iff_add_le]
    exact_mod_cast hword
  calc (word.toNat : ℚ) * 2 ^ (-52 : ℤ) ≤ (2 ^ 52 - 1) * 2 ^ (-52 : ℤ) :=
        mul_le_mul_of_nonneg_right hle (zpow_pos two_pos _).le
    _ = 1 - 2 ^ (-52 : ℤ) := by norm_num

theorem point_bounds (ht : 0.0 < t) (hfinite : t.isFinite = true) (g : G) :
    0.0 ≤ (fraction g).1 * scale t + 0.0 ∧ (fraction g).1 * scale t + 0.0 < t := by
  obtain ⟨hscale, hscale_finite, hscale_lt⟩ := scale_spec ht hfinite
  obtain ⟨hlower, hupper⟩ := fraction_bounds g
  obtain ⟨hu, hu_nonneg, hu_le⟩ :=
    finite_of_between hasValue_zero hasValue_greatest_fraction hlower hupper
  have hs_nonneg := (zero_le_iff_toRat hscale_finite).1 hscale
  have hproduct := ordinal_mul hu hscale_finite
  have hgreatest := ordinal_mul hscale_finite hasValue_greatest_fraction.finite
  have hlt : (fraction g).1 * scale t < t := by
    refine FloatOrder.lt_of_le_of_lt ?_ hscale_lt
    rw [le_iff_ordinal (isNaN_of_ordinal hproduct) (isNaN_of_ordinal hgreatest), hproduct,
      hgreatest, hasValue_greatest_fraction.toRat_eq, mul_comm]
    exact rounded_mono (mul_le_mul_of_nonneg_left hu_le hs_nonneg)
  have hge : 0.0 ≤ (fraction g).1 * scale t :=
    ge_of_ordinal hasValue_zero hproduct (mul_nonneg hu_nonneg hs_nonneg)
  obtain ⟨hpoint, -, -⟩ := finite_of_between hasValue_zero ⟨hfinite, rfl⟩ hge
    (FloatOrder.le_of_lt hlt)
  -- Adding zero makes a zero positive and keeps the order.
  have hsum := ordinal_add hpoint hasValue_zero.finite
  rw [hasValue_zero.toRat_eq, add_zero, rounded_toRat hpoint] at hsum
  have hnumber := FloatOrder.isNaN_of_isFinite hpoint
  have htnumber := FloatOrder.isNaN_of_isFinite hfinite
  have hsum_number := (HasValue.of_ordinal_eq ⟨hpoint, rfl⟩ hsum).isNaN_eq
  rw [le_iff_ordinal rfl hsum_number, lt_iff_ordinal hsum_number htnumber, hsum]
  exact ⟨(le_iff_ordinal rfl hnumber).1 hge, (lt_iff_ordinal hnumber htnumber).1 hlt⟩

variable {ws : List Float}

theorem weighted_pos (hw : ∀ w ∈ ws, 0.0 ≤ w) (hfinite : (total ws).isFinite = true)
    (hpos : 0.0 < total ws) (g : G) :
    ∃ w, ws[(weighted ws g).1]? = some w ∧ 0.0 < w := by
  obtain ⟨hlower, hupper⟩ := point_bounds hpos hfinite g
  exact placeOf_pos hw hfinite hlower hupper

end Point

end RuleInduction.Random
