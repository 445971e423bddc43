import RuleInduction.Proofs.FloatArithmetic

namespace RuleInduction.FloatBounds

open Binary64 FloatValue FloatRounding FloatArithmetic
open Float.Model (UnpackedFloat)
open Float.Model.UnpackedFloat (Sign)

variable {x y a b c : Float} {p q r : ℚ}

theorem ordinal_lt (ha : a.isFinite = true) : (ordinal a).natAbs < infinityBits := by
  rw [natAbs_ordinal]
  exact Decimal.isFinite_iff.1 ha

theorem isNaN_infinity (s : Sign) : (packed (.infinity s)).isNaN = false := by
  cases s <;> rfl

theorem negative_infinity_le (hc : HasValue c r) : packed (.infinity .negative) ≤ c := by
  have hlt := ordinal_lt hc.finite
  rw [le_iff_ordinal (isNaN_infinity _) hc.isNaN_eq, ordinal_packed_infinity, Sign.apply]
  omega

theorem le_positive_infinity (hc : HasValue c r) : c ≤ packed (.infinity .positive) :=
  le_infinite hc.isNaN_eq

theorem number_cases (h : x.isNaN = false) : x.isFinite = true ∨
    ∃ s, x.toModel.unpack = .infinity s ∧ ordinal x = s.apply infinityBits := by
  rcases Nat.lt_or_eq_of_le (unsigned_le h) with hlt | heq
  · exact Or.inl (Decimal.isFinite_iff.2 hlt)
  · refine Or.inr ⟨sign x, unpack_infinite heq, ?_⟩
    rw [ordinal, heq]

theorem le_cases (ha : HasValue a q) (h : x ≤ a) :
    (x.isFinite = true ∧ toRat x ≤ q) ∨ x.toModel.unpack = .infinity .negative := by
  obtain ⟨hx, ha'⟩ := FloatOrder.isNaN_of_le h
  rcases number_cases hx with hfinite | ⟨s, hunpack, hordinal⟩
  · refine Or.inl ⟨hfinite, ?_⟩
    rw [← ha.toRat_eq]
    exact (le_iff_toRat hfinite ha.finite).1 h
  · have hle := (le_iff_ordinal hx ha').1 h
    have hlt := ordinal_lt ha.finite
    cases s with
    | negative => exact Or.inr hunpack
    | positive =>
        rw [hordinal, Sign.apply] at hle
        omega

theorem ge_cases (ha : HasValue a q) (h : a ≤ x) :
    (x.isFinite = true ∧ q ≤ toRat x) ∨ x.toModel.unpack = .infinity .positive := by
  obtain ⟨ha', hx⟩ := FloatOrder.isNaN_of_le h
  rcases number_cases hx with hfinite | ⟨s, hunpack, hordinal⟩
  · refine Or.inl ⟨hfinite, ?_⟩
    rw [← ha.toRat_eq]
    exact (le_iff_toRat ha.finite hfinite).1 h
  · have hle := (le_iff_ordinal ha' hx).1 h
    have hlt := ordinal_lt ha.finite
    cases s with
    | negative =>
        rw [hordinal, Sign.apply] at hle
        omega
    | positive => exact Or.inr hunpack

theorem finite_of_between (ha : HasValue a p) (hb : HasValue b q) (hax : a ≤ x)
    (hxb : x ≤ b) : x.isFinite = true ∧ p ≤ toRat x ∧ toRat x ≤ q := by
  obtain ⟨ha', hx⟩ := FloatOrder.isNaN_of_le hax
  have hlower := (le_iff_ordinal ha' hx).1 hax
  have hupper := (le_iff_ordinal hx (FloatOrder.isNaN_of_le hxb).2).1 hxb
  have hfinite : x.isFinite = true := by
    have := ordinal_lt ha.finite
    have := ordinal_lt hb.finite
    rw [Decimal.isFinite_iff, ← natAbs_ordinal]
    omega
  refine ⟨hfinite, ?_, ?_⟩
  · rw [← ha.toRat_eq]
    exact (le_iff_toRat ha.finite hfinite).1 hax
  · rw [← hb.toRat_eq]
    exact (le_iff_toRat hfinite hb.finite).1 hxb

section Infinite

variable {s t : Sign}

theorem infinity_add (hx : x.toModel.unpack = .infinity s)
    (hy : y.isFinite = true ∨ y.toModel.unpack = .infinity s) : x + y = packed (.infinity s) := by
  change packed (.add .binary64 x.toModel.unpack y.toModel.unpack) = _
  rw [hx]
  rcases hy with hy | hy
  · rcases unpack_of_isFinite hy with ⟨hu, -⟩ | ⟨v, hv, hu, -⟩ <;> rw [hu] <;> rfl
  · rw [hy]
    cases s <;> rfl

theorem finite_add_infinity (hx : x.isFinite = true) (hy : y.toModel.unpack = .infinity s) :
    x + y = packed (.infinity s) := by
  change packed (.add .binary64 x.toModel.unpack y.toModel.unpack) = _
  rw [hy]
  rcases unpack_of_isFinite hx with ⟨hu, -⟩ | ⟨v, hv, hu, -⟩ <;> rw [hu] <;> rfl

theorem infinity_sub (hx : x.toModel.unpack = .infinity s)
    (hy : y.isFinite = true ∨ y.toModel.unpack = .infinity (-s)) :
    x - y = packed (.infinity s) := by
  change packed (.sub .binary64 x.toModel.unpack y.toModel.unpack) = _
  rw [hx]
  rcases hy with hy | hy
  · rcases unpack_of_isFinite hy with ⟨hu, -⟩ | ⟨v, hv, hu, -⟩ <;> rw [hu] <;> rfl
  · rw [hy]
    cases s <;> rfl

theorem finite_sub_infinity (hx : x.isFinite = true) (hy : y.toModel.unpack = .infinity s) :
    x - y = packed (.infinity (-s)) := by
  change packed (.sub .binary64 x.toModel.unpack y.toModel.unpack) = _
  rw [hy]
  rcases unpack_of_isFinite hx with ⟨hu, -⟩ | ⟨v, hv, hu, -⟩ <;> rw [hu] <;> rfl

theorem infinity_mul_infinity (hx : x.toModel.unpack = .infinity s)
    (hy : y.toModel.unpack = .infinity t) : x * y = packed (.infinity (s * t)) := by
  change packed (.mul .binary64 x.toModel.unpack y.toModel.unpack) = _
  rw [hx, hy]
  rfl

theorem unpack_of_pos (hx : x.isFinite = true) (hpos : 0 < toRat x) :
    ∃ m e hm, x.toModel.unpack = .finite .positive m e hm := by
  rcases unpack_of_isFinite hx with ⟨-, hq⟩ | ⟨v, hv, hu, hq⟩
  · exact absurd hq hpos.ne'
  · rw [hq] at hpos
    cases hs : sign x with
    | negative =>
        rw [hs, signed] at hpos
        linarith [hv.toRat_pos]
    | positive => exact ⟨_, _, hv.pos, hs ▸ hu⟩

theorem pos_mul_infinity (hx : x.isFinite = true) (hpos : 0 < toRat x)
    (hy : y.toModel.unpack = .infinity s) : x * y = packed (.infinity s) := by
  obtain ⟨m, e, hm, hu⟩ := unpack_of_pos hx hpos
  change packed (.mul .binary64 x.toModel.unpack y.toModel.unpack) = _
  rw [hu, hy]
  cases s <;> rfl

theorem infinity_div_pos (hx : x.toModel.unpack = .infinity s) (hy : y.isFinite = true)
    (hpos : 0 < toRat y) : x / y = packed (.infinity s) := by
  obtain ⟨m, e, hm, hu⟩ := unpack_of_pos hy hpos
  change packed (.div .binary64 x.toModel.unpack y.toModel.unpack) = _
  rw [hx, hu]
  cases s <;> rfl

end Infinite

section Numbers

theorem isNaN_add_of_isFinite (hx : x.isNaN = false) (hy : y.isFinite = true) :
    (x + y).isNaN = false := by
  rcases number_cases hx with hx' | ⟨s, hx', -⟩
  · exact isNaN_of_ordinal (ordinal_add hx' hy)
  · rw [infinity_add hx' (Or.inl hy)]
    exact isNaN_infinity s

theorem isNaN_sub_of_isFinite (hx : x.isFinite = true) (hy : y.isNaN = false) :
    (x - y).isNaN = false := by
  rcases number_cases hy with hy' | ⟨s, hy', -⟩
  · exact isNaN_of_ordinal (ordinal_sub hx hy')
  · rw [finite_sub_infinity hx hy']
    exact isNaN_infinity (-s)

theorem isNaN_div_of_pos (hx : x.isNaN = false) (hy : y.isFinite = true) (hpos : 0 < toRat y) :
    (x / y).isNaN = false := by
  rcases number_cases hx with hx' | ⟨s, hx', -⟩
  · exact isNaN_of_ordinal (ordinal_div hx' hy hpos.ne')
  · rw [infinity_div_pos hx' hy hpos]
    exact isNaN_infinity s

end Numbers

-- Where the operands are bounded by floats, the result is bounded by any float that bounds the
-- exact result on those bounds.
section Bounds

variable (ha : HasValue a p) (hb : HasValue b q) (hc : HasValue c r)

include ha hc

theorem mul_le_of_pos (hx : x ≤ a) (hy : y.isFinite = true) (hpos : 0 < toRat y)
    (h : toRat y * p ≤ r) : y * x ≤ c := by
  rcases le_cases ha hx with ⟨hx', hxa⟩ | hx'
  · refine le_of_ordinal hc (ordinal_mul hy hx') ?_
    exact (mul_le_mul_of_nonneg_left hxa hpos.le).trans h
  · rw [pos_mul_infinity hy hpos hx']
    exact negative_infinity_le hc

theorem le_mul_of_pos (hx : a ≤ x) (hy : y.isFinite = true) (hpos : 0 < toRat y)
    (h : r ≤ toRat y * p) : c ≤ y * x := by
  rcases ge_cases ha hx with ⟨hx', hxa⟩ | hx'
  · refine ge_of_ordinal hc (ordinal_mul hy hx') ?_
    exact h.trans (mul_le_mul_of_nonneg_left hxa hpos.le)
  · rw [pos_mul_infinity hy hpos hx']
    exact le_positive_infinity hc

theorem div_le_of_pos (hx : x ≤ a) (hy : y.isFinite = true) (hpos : 0 < toRat y)
    (h : p / toRat y ≤ r) : x / y ≤ c := by
  rcases le_cases ha hx with ⟨hx', hxa⟩ | hx'
  · refine le_of_ordinal hc (ordinal_div hx' hy hpos.ne') ?_
    exact (div_le_div_of_nonneg_right hxa hpos.le).trans h
  · rw [infinity_div_pos hx' hy hpos]
    exact negative_infinity_le hc

theorem le_div_of_pos (hx : a ≤ x) (hy : y.isFinite = true) (hpos : 0 < toRat y)
    (h : r ≤ p / toRat y) : c ≤ x / y := by
  rcases ge_cases ha hx with ⟨hx', hxa⟩ | hx'
  · refine ge_of_ordinal hc (ordinal_div hx' hy hpos.ne') ?_
    exact h.trans (div_le_div_of_nonneg_right hxa hpos.le)
  · rw [infinity_div_pos hx' hy hpos]
    exact le_positive_infinity hc

include hb

theorem add_le (hx : x ≤ a) (hy : y ≤ b) (h : p + q ≤ r) : x + y ≤ c := by
  have hinf := negative_infinity_le hc
  rcases le_cases ha hx with ⟨hx', hxa⟩ | hx'
  · rcases le_cases hb hy with ⟨hy', hyb⟩ | hy'
    · exact le_of_ordinal hc (ordinal_add hx' hy') (by linarith)
    · rwa [finite_add_infinity hx' hy']
  · rwa [infinity_add hx' ((le_cases hb hy).imp_left And.left)]

theorem le_add (hx : a ≤ x) (hy : b ≤ y) (h : r ≤ p + q) : c ≤ x + y := by
  have hinf := le_positive_infinity hc
  rcases ge_cases ha hx with ⟨hx', hxa⟩ | hx'
  · rcases ge_cases hb hy with ⟨hy', hyb⟩ | hy'
    · exact ge_of_ordinal hc (ordinal_add hx' hy') (by linarith)
    · rwa [finite_add_infinity hx' hy']
  · rwa [infinity_add hx' ((ge_cases hb hy).imp_left And.left)]

theorem sub_le (hx : x ≤ a) (hy : b ≤ y) (h : p - q ≤ r) : x - y ≤ c := by
  have hinf := negative_infinity_le hc
  rcases le_cases ha hx with ⟨hx', hxa⟩ | hx'
  · rcases ge_cases hb hy with ⟨hy', hyb⟩ | hy'
    · exact le_of_ordinal hc (ordinal_sub hx' hy') (by linarith)
    · rwa [finite_sub_infinity hx' hy']
  · rwa [infinity_sub hx' ((ge_cases hb hy).imp_left And.left)]

end Bounds

theorem zero_le_square (hx : x.isNaN = false) : 0.0 ≤ square x := by
  rcases number_cases hx with hx' | ⟨s, hx', -⟩
  · exact ge_of_ordinal hasValue_zero (ordinal_mul hx' hx') (mul_self_nonneg _)
  · rw [square, infinity_mul_infinity hx' hx']
    cases s <;> exact le_positive_infinity hasValue_zero

end RuleInduction.FloatBounds
