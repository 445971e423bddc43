import RuleInduction.Proofs.Criterion
import RuleInduction.Proofs.FloatMagnitude

namespace RuleInduction.Criterion

open FloatValue FloatRounding FloatArithmetic FloatBounds FloatMagnitude

variable {weights side strengths : List Float} {n b : ℕ}

theorem isFinite_infinite : infinite.isFinite = false := by
  decide

theorem not_degenerate_of_isFinite {criterion : Criterion}
    (h : (criterion.split strengths weights).isFinite = true) :
    ¬ Degenerate strengths weights := by
  intro hdegenerate
  rw [split_of_degenerate criterion hdegenerate, isFinite_infinite] at h
  cases h

theorem Side.atMost_part (h : Side weights side n)
    (hfinite : (count side / Float.ofNat n).isFinite = true) :
    AtMost (count side / Float.ofNat n) 1 := by
  have hpos := List.length_pos_of_ne_nil h.ne_nil
  exact FloatMagnitude.atMost_part (hpos.trans_le h.length_le).ne' h.length_le
    (isFinite_of_div hfinite)

theorem Side.zero_le_part (h : Side weights side n)
    (hfinite : (count side / Float.ofNat n).isFinite = true) :
    0.0 ≤ count side / Float.ofNat n := by
  have hpos := List.length_pos_of_ne_nil h.ne_nil
  exact zero_le_div_count (isFinite_of_div hfinite)
    (ge_of_ordinal hasValue_zero (FloatCount.ordinal_ofNat _) (Nat.cast_nonneg _))
    (hpos.trans_le h.length_le).ne'

section Gini

theorem atMost_square {x : Float} (hx : AtMost x (2 ^ b)) (hmax : 2 * b ≤ 1023) :
    AtMost (square x) (2 ^ (2 * b)) :=
  hx.mul hx (exact_two_pow hmax) (by rw [two_mul, pow_add])

theorem atMost_gini_node (hw : ∀ w ∈ side, AtMost w (2 ^ b)) (hne : side ≠ []) (hb : 53 ≤ b)
    (hmax : 2 * b + 1 ≤ 1023) : AtMost (gini.node side) (2 ^ (2 * b + 1)) := by
  have hmean := atMost_mean hw (by omega)
  have hrest := hmean.one_sub hb (by omega)
  have hfirst := (atMost_square hmean (by omega)).one_sub (by omega) (by omega)
  have hsecond := atMost_square hrest (by omega)
  rw [node, if_neg (by simpa using hne)]
  exact hfirst.sub hsecond (exact_two_pow hmax) (by rw [← two_mul, ← pow_succ'])

theorem atMost_gini_split (hw : ∀ w ∈ weights, AtMost w (2 ^ b)) (hb : 53 ≤ b)
    (hmax : 2 * b + 2 ≤ 1023) (hfinite : (gini.split strengths weights).isFinite = true) :
    AtMost (gini.split strengths weights) (2 ^ (2 * b + 2)) := by
  obtain ⟨matched, unmatched, n, hm, hu, -, hsplit⟩ :=
    exists_sides (not_degenerate_of_isFinite hfinite)
  rw [hsplit] at hfinite ⊢
  have hterm {side : List Float} (h : Side weights side n)
      (hfinite : (count side / Float.ofNat n * gini.node side).isFinite = true) :
      AtMost (count side / Float.ofNat n * gini.node side) (2 ^ (2 * b + 1)) := by
    have hnode := atMost_gini_node (fun w hw' => hw w (h.sublist.subset hw')) h.ne_nil hb (by omega)
    exact (h.atMost_part (isFinite_of_mul hfinite).1).mul hnode (exact_two_pow (by omega))
      (one_mul _).le
  obtain ⟨hm_finite, hu_finite⟩ := isFinite_of_add hfinite
  exact (hterm hm hm_finite).add (hterm hu hu_finite) (exact_two_pow hmax)
    (by rw [← two_mul, ← pow_succ'])

end Gini

section Mse

-- The second criterion adds squares, so it can only be negative by what is not finite.
theorem zero_le_mse_node_of_isFinite (hne : side ≠ []) (h : (mse.node side).isFinite = true) :
    0.0 ≤ mse.node side := by
  rw [node, if_neg (by simpa using hne)] at h ⊢
  have hsum := isFinite_of_div h
  refine zero_le_div_count hsum (zero_le_sum fun x hx => ?_) (List.length_pos_of_ne_nil hne).ne'
  have hx_finite := (isFinite_of_foldl hsum).2 x hx
  obtain ⟨w, -, rfl⟩ := List.mem_map.1 hx
  exact zero_le_square (FloatOrder.isNaN_of_isFinite (isFinite_of_mul hx_finite).1)

theorem zero_le_mse_split_of_isFinite (h : (mse.split strengths weights).isFinite = true) :
    0.0 ≤ mse.split strengths weights := by
  obtain ⟨matched, unmatched, n, hm, hu, -, hsplit⟩ := exists_sides (not_degenerate_of_isFinite h)
  rw [hsplit] at h ⊢
  have hterm {side : List Float} (h : Side weights side n)
      (hfinite : (count side / Float.ofNat n * mse.node side).isFinite = true) :
      0.0 ≤ count side / Float.ofNat n * mse.node side := by
    obtain ⟨hpart, hnode⟩ := isFinite_of_mul hfinite
    refine ge_of_ordinal hasValue_zero (ordinal_mul hpart hnode) (mul_nonneg ?_ ?_)
    · exact (zero_le_iff_toRat hpart).1 (h.zero_le_part hpart)
    · exact (zero_le_iff_toRat hnode).1 (zero_le_mse_node_of_isFinite h.ne_nil hnode)
  obtain ⟨hm_finite, hu_finite⟩ := isFinite_of_add h
  exact le_add hasValue_zero hasValue_zero hasValue_zero (hterm hm hm_finite) (hterm hu hu_finite)
    (add_zero 0).ge

end Mse

end RuleInduction.Criterion
