import RuleInduction.Proofs.Random.Weighted
import RuleInduction.Proofs.Selection
import RuleInduction.Random.Generator

namespace RuleInduction.Strategy

open FloatValue FloatRounding FloatArithmetic FloatBounds FloatMagnitude

section Share

variable {x : Float}

theorem zero_le_share (x : Float) : 0.0 ≤ share x := by
  rw [share]
  split
  · next h => exact FloatOrder.le_of_lt h
  · decide

theorem share_pos_iff : 0.0 < share x ↔ 0.0 < 1.0 - 2.0 * x := by
  rw [share]
  split
  · next h => exact iff_of_true h h
  · next h => exact iff_of_false (by decide) h

theorem toRat_two_pos : 0 < toRat 2.0 := by
  rw [hasValue_two.toRat_eq]
  exact two_pos

theorem zero_le_twice (hx : 0.0 ≤ x) : 0.0 ≤ 2.0 * x :=
  le_mul_of_pos hasValue_zero hasValue_zero hx hasValue_two.finite toRat_two_pos (mul_zero _).ge

theorem hasValue_half : HasValue 0.5 (2 ^ (-1 : ℤ)) :=
  hasValue_two_pow (e := -53) (by decide) (by decide) (by decide)

-- The greatest float below one half, twice that, and what is then left of one: the least share.
def belowHalf : Float :=
  .ofBits 0x3FDFFFFFFFFFFFFF

def belowOne : Float :=
  .ofBits 0x3FEFFFFFFFFFFFFF

def leastShare : Float :=
  .ofBits 0x3CA0000000000000

-- The greatest mantissa.
theorem hasValue_full {e : ℤ} (hmin : -1074 ≤ e) (hmax : e ≤ 971)
    (h : ordinal x = ((e + 1074).toNat * 2 ^ 52 + (2 ^ 53 - 1) : ℕ)) :
    HasValue x ((2 ^ 53 - 1) * 2 ^ e) := by
  have hfull : 2 ^ 52 ≤ 2 ^ 53 - 1 := by decide
  have hlegal : Binary64.Legal ⟨2 ^ 53 - 1, e⟩ :=
    ⟨(Nat.two_pow_pos 52).trans_le hfull, Nat.sub_lt (Nat.two_pow_pos 53) one_pos, hmin,
      fun _ => hfull⟩
  have hvalue := hasValue_of_place hlegal hmax h
  rwa [Binary64.Dyadic.toRat, Nat.cast_sub (by decide), Nat.cast_pow, Nat.cast_ofNat,
    Nat.cast_one] at hvalue

theorem hasValue_belowHalf : HasValue belowHalf ((2 ^ 53 - 1) * 2 ^ (-54 : ℤ)) :=
  hasValue_full (by decide) (by decide) (by decide)

theorem hasValue_belowOne : HasValue belowOne ((2 ^ 53 - 1) * 2 ^ (-53 : ℤ)) :=
  hasValue_full (by decide) (by decide) (by decide)

theorem hasValue_leastShare : HasValue leastShare (2 ^ (-53 : ℤ)) :=
  hasValue_two_pow (e := -105) (by decide) (by decide) (by decide)

theorem le_belowHalf (hlt : x < 0.5) : x ≤ belowHalf := by
  have hnumber := FloatOrder.isNaN_of_lt hlt
  have hordinal : ordinal 0.5 = ordinal belowHalf + 1 := by decide
  have hbelow := (lt_iff_ordinal hnumber hasValue_half.isNaN_eq).1 hlt
  rw [le_iff_ordinal hnumber hasValue_belowHalf.isNaN_eq]
  omega

theorem share_pos (hx : 0.0 ≤ x) (hlt : x < 0.5) : 0.0 < share x := by
  have htwice : 2.0 * x ≤ belowOne := by
    refine mul_le_of_pos hasValue_belowHalf hasValue_belowOne (le_belowHalf hlt)
      hasValue_two.finite toRat_two_pos ?_
    rw [hasValue_two.toRat_eq]
    norm_num
  obtain ⟨hfinite, -, hupper⟩ :=
    finite_of_between hasValue_zero hasValue_belowOne (zero_le_twice hx) htwice
  rw [share_pos_iff]
  refine FloatOrder.lt_of_lt_of_le (y := leastShare) (by decide) ?_
  refine ge_of_ordinal hasValue_leastShare (ordinal_sub hasValue_one.finite hfinite) ?_
  rw [hasValue_one.toRat_eq]
  norm_num at hupper ⊢
  linarith

theorem not_share_pos (h : 0.5 ≤ x) : ¬ 0.0 < share x := by
  have htwice : 1.0 ≤ 2.0 * x := by
    refine le_mul_of_pos hasValue_half hasValue_one h hasValue_two.finite toRat_two_pos ?_
    rw [hasValue_two.toRat_eq]
    norm_num
  rw [share_pos_iff]
  refine FloatOrder.not_lt_of_ge ?_
  exact sub_le hasValue_one hasValue_one hasValue_zero (by decide) htwice (sub_self 1).le

theorem share_pos_iff_lt (hx : 0.0 ≤ x) : 0.0 < share x ↔ x < 0.5 := by
  refine ⟨fun h => ?_, share_pos hx⟩
  exact FloatOrder.lt_of_not_ge (FloatOrder.isNaN_of_le hx).2 rfl fun hge => not_share_pos hge h

theorem share_le_one (hx : 0.0 ≤ x) : share x ≤ 1.0 := by
  rw [share]
  split
  · exact sub_le hasValue_one hasValue_zero hasValue_one (by decide) (zero_le_twice hx)
      (sub_zero 1).le
  · decide

theorem atMost_share_of_nonneg (hx : 0.0 ≤ x) : AtMost (share x) (2 ^ 0) := by
  obtain ⟨hfinite, hlower, hupper⟩ :=
    finite_of_between hasValue_zero hasValue_one (zero_le_share x) (share_le_one hx)
  exact ⟨hfinite, by rwa [abs_of_nonneg hlower, pow_zero]⟩

-- An impurity may be below zero without a limit, and its share grows with it.
theorem atMost_share {e : ℕ} (hx : AtMost x (2 ^ e)) (hlarge : 53 ≤ e) (he : e + 1 ≤ 1023) :
    AtMost (share x) (2 ^ (e + 1)) := by
  have htwice : AtMost (2.0 * x) (2 ^ (e + 1)) :=
    (atMost_of_hasValue hasValue_two zero_le_two).mul hx (exact_two_pow he) (pow_succ' 2 e).ge
  rw [share]
  split
  · exact htwice.one_sub (by omega) he
  · exact (atMost_of_hasValue hasValue_zero le_rfl).mono (by positivity)

end Share

section Wheel

def Useful (x : Float) : Prop :=
  x.isFinite = true ∧ x < 0.5

instance (x : Float) : Decidable (Useful x) :=
  inferInstanceAs (Decidable (_ ∧ _))

variable {G : Type} [RandomSource G] {xs : List Float}

theorem mem_finite {x : Float} (hx : x ∈ xs) (hfinite : x.isFinite = true) :
    ∃ i, (x, i) ∈ finite xs := by
  obtain ⟨i, hi⟩ := List.mem_iff_getElem?.1 hx
  exact ⟨i, List.mem_filter.2 ⟨List.mem_zipIdx_iff_getElem?.2 hi, hfinite⟩⟩

theorem zero_le_shares : ∀ w ∈ shares xs, 0.0 ≤ w := by
  intro w hw
  obtain ⟨e, -, rfl⟩ := List.mem_map.1 hw
  exact zero_le_share e.1

theorem length_shares_le (xs : List Float) : (shares xs).length ≤ xs.length := by
  rw [shares, List.length_map, finite]
  exact (List.length_filter_le _ _).trans List.length_zipIdx.le

theorem isFinite_total_of_atMost {e : ℕ}
    (hxs : ∀ x ∈ xs, x.isFinite = true → AtMost (share x) (2 ^ e))
    (he : e + (min xs.length (2 ^ 53)).log2 ≤ 1023) :
    (Random.total (shares xs)).isFinite = true := by
  have hlog := log2_mono (min_le_min_right (2 ^ 53) (length_shares_le xs))
  refine (Random.atMost_total (e := e) (fun w hw => ?_) (by omega)).finite
  obtain ⟨⟨x, i⟩, hx, rfl⟩ := List.mem_map.1 hw
  obtain ⟨hget, hfinite⟩ := isFinite_of_mem_finite hx
  exact hxs x (List.mem_of_getElem? hget) hfinite

variable (hxs : ∀ x ∈ xs, x.isFinite = true → 0.0 ≤ x)

include hxs

theorem isFinite_total_shares : (Random.total (shares xs)).isFinite = true := by
  have hlog := log2_min_le xs.length
  exact isFinite_total_of_atMost
    (fun x hx hfinite => atMost_share_of_nonneg (hxs x hx hfinite)) (by omega)

theorem useful_of_getElem? {i : Nat} {w : Float} (hw : (shares xs)[i]? = some w)
    (hpos : 0.0 < w) : ∃ e, (finite xs)[i]? = some e ∧ xs[e.2]? = some e.1 ∧ Useful e.1 := by
  rw [shares, List.getElem?_map] at hw
  obtain ⟨e, he, rfl⟩ := Option.map_eq_some_iff.1 hw
  obtain ⟨hget, hfinite⟩ := isFinite_of_mem_finite (List.mem_of_getElem? he)
  have hnonneg := hxs _ (List.mem_of_getElem? hget) hfinite
  exact ⟨e, he, hget, hfinite, (share_pos_iff_lt hnonneg).1 hpos⟩

theorem total_shares_pos {x : Float} (hx : x ∈ xs) (huseful : Useful x) :
    0.0 < Random.total (shares xs) := by
  obtain ⟨i, hi⟩ := mem_finite hx huseful.1
  have hmem : share x ∈ shares xs := List.mem_map.2 ⟨_, hi, rfl⟩
  exact FloatOrder.lt_of_lt_of_le ((share_pos_iff_lt (hxs x hx huseful.1)).2 huseful.2)
    (Random.le_total zero_le_shares (isFinite_total_shares hxs) _ hmem)

theorem spin_of_pos (hpos : 0.0 < Random.total (shares xs)) (g : G) :
    ∃ i x, (spin xs g).1 = .chosen i ∧ xs[i]? = some x ∧ Useful x := by
  have hfinite := isFinite_total_shares hxs
  have hnumber := FloatOrder.isNaN_of_isFinite hfinite
  have hne : ¬ (Random.total (shares xs) == 0.0) = true := by
    rw [beq_iff_ordinal hnumber rfl]
    exact ((lt_iff_ordinal rfl hnumber).1 hpos).ne'
  obtain ⟨w, hw, hw_pos⟩ := Random.weighted_pos zero_le_shares hfinite hpos g
  obtain ⟨e, he, hget, huseful⟩ := useful_of_getElem? hxs hw hw_pos
  refine ⟨e.2, e.1, ?_, hget, huseful⟩
  simp only [spin, if_neg hne, if_pos hfinite, he]

theorem spin_of_not_pos (hpos : ¬ 0.0 < Random.total (shares xs)) (g : G) :
    spin xs g = (.declined, g) := by
  have hfinite := isFinite_total_shares hxs
  have hnumber := FloatOrder.isNaN_of_isFinite hfinite
  have hnonneg := Random.zero_le_total zero_le_shares hfinite
  have hzero : (Random.total (shares xs) == 0.0) = true := by
    rw [lt_iff_ordinal rfl hnumber] at hpos
    rw [le_iff_ordinal rfl hnumber] at hnonneg
    rw [beq_iff_ordinal hnumber rfl]
    exact le_antisymm (not_lt.1 hpos) hnonneg
  simp only [spin, if_pos hzero]

end Wheel

variable {G : Type} [RandomSource G]

theorem select_roulette_iff {xs : List Float} (hxs : ∀ x ∈ xs, x.isFinite = true → 0.0 ≤ x)
    (g : G) :
    ((roulette.select xs g).1 = .declined ↔ ¬ ∃ x ∈ xs, Useful x) ∧
      ((∃ x ∈ xs, Useful x) →
        ∃ i x, (roulette.select xs g).1 = .chosen i ∧ xs[i]? = some x ∧ Useful x) := by
  have hchosen (h : ∃ x ∈ xs, Useful x) :
      ∃ i x, (spin xs g).1 = .chosen i ∧ xs[i]? = some x ∧ Useful x := by
    obtain ⟨x, hx, huseful⟩ := h
    exact spin_of_pos hxs (total_shares_pos hxs hx huseful) g
  refine ⟨⟨fun hdeclined huseful => ?_, fun hnone => ?_⟩, hchosen⟩
  · obtain ⟨i, x, hi, -⟩ := hchosen huseful
    cases hi.symm.trans hdeclined
  · refine congrArg Prod.fst (spin_of_not_pos hxs (fun hpos => hnone ?_) g)
    obtain ⟨i, x, -, hget, huseful⟩ := spin_of_pos hxs hpos g
    exact ⟨x, List.mem_of_getElem? hget, huseful⟩

-- The share of the greatest float below one half vanishes beside that of one quarter.
theorem select_roulette_of_absorbed_share :
    let xs := [0.0 / 0.0, 0.9, infinite, 0.25, 0.49999999999999994, 0.5]
    (∀ x ∈ xs, x.isFinite = true → 0.0 ≤ x) ∧
      ∃ i x, (roulette.select xs (⟨1⟩ : SplitMix)).1 = .chosen i ∧ xs[i]? = some x ∧ Useful x := by
  intro xs
  have hxs : ∀ x ∈ xs, x.isFinite = true → 0.0 ≤ x := by decide +kernel
  have huseful : ∃ x ∈ xs, Useful x := by decide +kernel
  exact ⟨hxs, (select_roulette_iff hxs (⟨1⟩ : SplitMix)).2 huseful⟩

end RuleInduction.Strategy
