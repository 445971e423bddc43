import RuleInduction.Proofs.Average

namespace RuleInduction.Criterion

open FloatValue FloatBounds

-- A split with an empty side.
def Degenerate (strengths weights : List Float) : Prop :=
  (splitWeights strengths weights).1 = [] ∨ (splitWeights strengths weights).2 = []

theorem map_snd_zip_sublist {α β : Type} (xs : List α) (ys : List β) :
    ((xs.zip ys).map Prod.snd).Sublist ys := by
  rw [List.zip_eq_zip_take_min, List.map_snd_zip (by simp)]
  exact List.take_sublist _ _

section Finite

variable {weights : List Float} (hfinite : ∀ w ∈ weights, w.isFinite = true)
  (hlen : weights.length ≤ 2 ^ 1023)

section Node

include hfinite hlen

theorem gini_node_le (hne : weights ≠ []) : gini.node weights ≤ 1.0 := by
  have hmean := isNaN_mean hfinite hlen
  have hrest := isNaN_sub_of_isFinite hasValue_one.finite hmean
  have hsub {x y : Float} (hx : x ≤ 1.0) (hy : 0.0 ≤ y) : x - y ≤ 1.0 :=
    sub_le hasValue_one hasValue_zero hasValue_one hx hy (sub_zero 1).le
  rw [node, if_neg (by simpa using hne)]
  exact hsub (hsub (by decide) (zero_le_square hmean)) (zero_le_square hrest)

theorem zero_le_mse_node : 0.0 ≤ mse.node weights := by
  by_cases hne : weights = []
  · rw [hne]
    decide
  · obtain ⟨hcount, hpos⟩ := count_bounds hne hlen
    have hmean := isNaN_mean hfinite hlen
    rw [node, if_neg (by simpa using hne)]
    refine le_div_of_pos hasValue_zero hasValue_zero (zero_le_sum ?_) hcount hpos (zero_div _).ge
    intro x hx
    obtain ⟨w, hw, rfl⟩ := List.mem_map.1 hx
    exact zero_le_square (isNaN_sub_of_isFinite (hfinite w hw) hmean)

end Node

section Split

-- A side of a split of `n` examples.
structure Side (weights side : List Float) (n : ℕ) : Prop where
  sublist : side.Sublist weights
  ne_nil : side ≠ []
  length_le : side.length ≤ n

-- A side of a split with examples on both: its weights are finite, and its share of the examples is
-- positive and at most one.
structure Proper (side : List Float) (n : ℕ) : Prop where
  ne_nil : side ≠ []
  finite : ∀ w ∈ side, w.isFinite = true
  length_le : side.length ≤ 2 ^ 1023
  share_finite : (count side / Float.ofNat n).isFinite = true
  share_pos : 0 < toRat (count side / Float.ofNat n)
  share_le : toRat (count side / Float.ofNat n) ≤ 1

namespace Proper

variable {side : List Float} {n : ℕ}

theorem of_sublist (hfinite : ∀ w ∈ weights, w.isFinite = true) (hsub : side.Sublist weights)
    (hne : side ≠ []) (hle : side.length ≤ n) (hn : n ≤ 2 ^ 1023) : Proper side n := by
  obtain ⟨hshare, hpos, hshare_le⟩ := share_bounds (List.length_pos_of_ne_nil hne).ne' hle hn
  exact ⟨hne, fun w hw => hfinite w (hsub.subset hw), hle.trans hn, hshare, hpos, hshare_le⟩

theorem gini_le (h : Proper side n) :
    count side / Float.ofNat n * gini.node side ≤ 1.0 := by
  refine mul_le_of_pos hasValue_one hasValue_one (gini_node_le h.finite h.length_le h.ne_nil)
    h.share_finite h.share_pos ?_
  rw [mul_one]
  exact h.share_le

theorem zero_le_mse (h : Proper side n) :
    0.0 ≤ count side / Float.ofNat n * mse.node side :=
  le_mul_of_pos hasValue_zero hasValue_zero (zero_le_mse_node h.finite h.length_le)
    h.share_finite h.share_pos (mul_zero _).ge

end Proper

variable (strengths : List Float)

theorem matched_sublist : (splitWeights strengths weights).1.Sublist weights := by
  rw [splitWeights, List.partition_eq_filter_filter]
  exact (List.filter_sublist.map _).trans (map_snd_zip_sublist _ _)

theorem unmatched_sublist : (splitWeights strengths weights).2.Sublist weights := by
  rw [splitWeights, List.partition_eq_filter_filter]
  exact (List.filter_sublist.map _).trans (map_snd_zip_sublist _ _)

theorem length_sides_le : (splitWeights strengths weights).1.length +
    (splitWeights strengths weights).2.length ≤ weights.length := by
  rw [splitWeights, List.partition_eq_filter_filter, List.length_map, List.length_map]
  refine (List.length_eq_length_filter_add _).symm.trans_le ?_
  exact (List.length_map _).symm.trans_le (map_snd_zip_sublist strengths weights).length_le

variable {strengths}

theorem split_of_degenerate (criterion : Criterion) (h : Degenerate strengths weights) :
    criterion.split strengths weights = infinite := by
  rcases h with h | h <;> simp [split, h]

theorem exists_sides (h : ¬ Degenerate strengths weights) :
    ∃ matched unmatched n, Side weights matched n ∧ Side weights unmatched n ∧
      n ≤ weights.length ∧ ∀ criterion : Criterion, criterion.split strengths weights =
        count matched / Float.ofNat n * criterion.node matched +
          count unmatched / Float.ofNat n * criterion.node unmatched := by
  obtain ⟨hmatched, hunmatched⟩ := not_or.1 h
  have hsome : ¬ ((splitWeights strengths weights).1.isEmpty ||
      (splitWeights strengths weights).2.isEmpty) = true := by
    simp [hmatched, hunmatched]
  exact ⟨_, _, _, ⟨matched_sublist strengths, hmatched, Nat.le_add_right _ _⟩,
    ⟨unmatched_sublist strengths, hunmatched, Nat.le_add_left _ _⟩,
    length_sides_le strengths, fun criterion => if_neg hsome⟩

include hfinite hlen

-- Without an empty side a split is the sum of two terms, each with a proper side.
theorem split_of_not_degenerate (h : ¬ Degenerate strengths weights) :
    ∃ matched unmatched n, Proper matched n ∧ Proper unmatched n ∧ ∀ criterion : Criterion,
      criterion.split strengths weights =
        count matched / Float.ofNat n * criterion.node matched +
          count unmatched / Float.ofNat n * criterion.node unmatched := by
  obtain ⟨matched, unmatched, n, hm, hu, hn, hsplit⟩ := exists_sides h
  exact ⟨matched, unmatched, n,
    .of_sublist hfinite hm.sublist hm.ne_nil hm.length_le (hn.trans hlen),
    .of_sublist hfinite hu.sublist hu.ne_nil hu.length_le (hn.trans hlen), hsplit⟩

theorem gini_split_le (h : ¬ Degenerate strengths weights) :
    gini.split strengths weights ≤ 2.0 := by
  obtain ⟨matched, unmatched, n, hm, hu, hsplit⟩ := split_of_not_degenerate hfinite hlen h
  rw [hsplit]
  exact add_le hasValue_one hasValue_one hasValue_two hm.gini_le hu.gini_le one_add_one_eq_two.le

theorem zero_le_mse_split : 0.0 ≤ mse.split strengths weights := by
  by_cases h : Degenerate strengths weights
  · rw [split_of_degenerate _ h]
    decide
  · obtain ⟨matched, unmatched, n, hm, hu, hsplit⟩ := split_of_not_degenerate hfinite hlen h
    rw [hsplit]
    exact le_add hasValue_zero hasValue_zero hasValue_zero hm.zero_le_mse hu.zero_le_mse
      (add_zero 0).ge

end Split

include hfinite hlen

theorem isNaN_node (criterion : Criterion) : (criterion.node weights).isNaN = false := by
  cases criterion with
  | gini =>
      by_cases hne : weights = []
      · rw [hne]
        rfl
      · exact (FloatOrder.isNaN_of_le (gini_node_le hfinite hlen hne)).1
  | mse => exact (FloatOrder.isNaN_of_le (zero_le_mse_node hfinite hlen)).2

theorem isNaN_split (criterion : Criterion) (strengths : List Float) :
    (criterion.split strengths weights).isNaN = false := by
  cases criterion with
  | gini =>
      by_cases h : Degenerate strengths weights
      · rw [split_of_degenerate _ h]
        rfl
      · exact (FloatOrder.isNaN_of_le (gini_split_le hfinite hlen h)).1
  | mse => exact (FloatOrder.isNaN_of_le (zero_le_mse_split hfinite hlen)).2

end Finite

-- A list in memory is far shorter; from about `2 ^ 1024` on, floats no longer count.
theorem impurity_of_isFinite {weights : List Float} (hfinite : ∀ w ∈ weights, w.isFinite = true)
    (hlen : weights.length ≤ 2 ^ 1023) (strengths : List Float) :
    (∀ criterion : Criterion, (criterion.node weights).isNaN = false ∧
      (criterion.split strengths weights).isNaN = false ∧
      (Degenerate strengths weights → criterion.split strengths weights = infinite)) ∧
    (gini.split strengths weights = infinite → Degenerate strengths weights) ∧
    0.0 ≤ mse.node weights ∧ 0.0 ≤ mse.split strengths weights := by
  refine ⟨fun criterion => ⟨isNaN_node hfinite hlen criterion,
    isNaN_split hfinite hlen criterion strengths, split_of_degenerate criterion⟩,
    fun hinfinite => ?_, zero_le_mse_node hfinite hlen, zero_le_mse_split hfinite hlen⟩
  by_contra h
  have hle := gini_split_le hfinite hlen h
  rw [hinfinite] at hle
  exact absurd hle (by decide)

theorem impurity_of_overflow :
    sum [1.5e308, 1.5e308, -1.0] = infinite ∧
      (∀ criterion : Criterion, (criterion.node [1.5e308, 1.5e308, -1.0]).isNaN = false) ∧
      0.0 ≤ mse.split [0.0 / 0.0, 1.0, 1.0] [1.5e308, 1.5e308, -1.0] := by
  obtain ⟨hnumbers, -, -, hsplit⟩ := @impurity_of_isFinite [1.5e308, 1.5e308, -1.0]
    (by decide +kernel) (by decide +kernel) [0.0 / 0.0, 1.0, 1.0]
  exact ⟨by decide +kernel, fun criterion => (hnumbers criterion).1, hsplit⟩

end RuleInduction.Criterion
