import RuleInduction.Criterion

namespace RuleInduction.FloatOrder

open Float.Model (UnpackedFloat)

structure Rank where
  group : Int
  exponent : Int
  mantissa : Int

namespace Rank

def order : Rank → Rank → Ordering :=
  compareLex (compareOn group) (compareLex (compareOn exponent) (compareOn mantissa))

instance : Std.TransCmp order :=
  inferInstanceAs (Std.TransCmp
    (compareLex (compareOn group) (compareLex (compareOn exponent) (compareOn mantissa))))

theorem order_swap (r q : Rank) : r.order q = (q.order r).swap :=
  Std.OrientedCmp.eq_swap

end Rank

-- The groups run from minus infinity over the negative numbers, the zeros and the positive numbers
-- to infinity.
def rank : UnpackedFloat → Option Rank
  | .notANumber => none
  | .infinity .negative => some ⟨-2, 0, 0⟩
  | .finite .negative m e _ => some ⟨-1, -e, -m⟩
  | .zero _ => some ⟨0, 0, 0⟩
  | .finite .positive m e _ => some ⟨1, e, m⟩
  | .infinity .positive => some ⟨2, 0, 0⟩

theorem compare_neg (a b : Int) : compare (-a) (-b) = (compare a b).swap := by
  rcases Int.lt_trichotomy a b with h | h | h
  · rw [Int.compare_eq_lt.2 h, Int.compare_eq_gt.2 (Int.neg_lt_neg h)]
    rfl
  · rw [h, Std.ReflOrd.compare_self, Std.ReflOrd.compare_self]
    rfl
  · rw [Int.compare_eq_gt.2 h, Int.compare_eq_lt.2 (Int.neg_lt_neg h)]
    rfl

theorem compare_cast (a b : Nat) : compare (a : Int) b = compare a b := by
  rcases Nat.lt_trichotomy a b with h | h | h
  · rw [Nat.compare_eq_lt.2 h, Int.compare_eq_lt.2 (Int.ofNat_lt.2 h)]
  · rw [h, Std.ReflOrd.compare_self, Std.ReflOrd.compare_self]
  · rw [Nat.compare_eq_gt.2 h, Int.compare_eq_gt.2 (Int.ofNat_lt.2 h)]

theorem order_finite_positive (m n : Nat) (e f : Int) :
    Rank.order ⟨1, e, m⟩ ⟨1, f, n⟩ = (compare e f).then (compare m n) := by
  rw [← compare_cast]
  rfl

theorem order_finite_negative (m n : Nat) (e f : Int) :
    Rank.order ⟨-1, -e, -m⟩ ⟨-1, -f, -n⟩ = ((compare e f).then (compare m n)).swap := by
  rw [← compare_cast, Ordering.swap_then, ← compare_neg, ← compare_neg]
  rfl

theorem compare_eq_order (a b : UnpackedFloat) :
    a.compare b = (rank a).bind fun r => (rank b).map (r.order ·) := by
  cases a with
  | notANumber => rfl
  | infinity s =>
      cases s <;> cases b with
      | notANumber => rfl
      | infinity t => cases t <;> rfl
      | zero t => rfl
      | finite t m e hm => cases t <;> rfl
  | zero s =>
      cases b with
      | notANumber => rfl
      | infinity t => cases t <;> rfl
      | zero t => rfl
      | finite t m e hm => cases t <;> rfl
  | finite s m e hm =>
      cases b with
      | notANumber => cases s <;> rfl
      | infinity t => cases s <;> cases t <;> rfl
      | zero t => cases s <;> rfl
      | finite t n f hn =>
          cases s <;> cases t
          · exact congrArg some (order_finite_negative m n e f).symm
          · rfl
          · rfl
          · exact congrArg some (order_finite_positive m n e f).symm

theorem rank_eq_none {x : Float} : rank x.toModel.unpack = none ↔ x.isNaN = true := by
  simp only [Float.isNaN, Float.Model.isNaN]
  cases x.toModel.unpack with
  | notANumber => exact iff_of_true rfl rfl
  | infinity s => cases s <;> exact iff_of_false (Option.some_ne_none _) Bool.false_ne_true
  | zero s => exact iff_of_false (Option.some_ne_none _) Bool.false_ne_true
  | finite s m e hm => cases s <;> exact iff_of_false (Option.some_ne_none _) Bool.false_ne_true

theorem exists_rank {x : Float} (h : x.isNaN = false) : ∃ r, rank x.toModel.unpack = some r :=
  Option.ne_none_iff_exists'.1 fun hr => Bool.noConfusion (h.symm.trans (rank_eq_none.1 hr))

theorem lt_iff {x y : Float} : x < y ↔ ∃ r q, rank x.toModel.unpack = some r ∧
    rank y.toModel.unpack = some q ∧ r.order q = .lt := by
  change x.lt y = true ↔ _
  simp only [Float.lt, decide_eq_true_eq]
  change UnpackedFloat.lt x.toModel.unpack y.toModel.unpack = true ↔ _
  cases hx : rank x.toModel.unpack <;> cases hy : rank y.toModel.unpack <;>
    simp [UnpackedFloat.lt, compare_eq_order, hx, hy]

theorem le_iff {x y : Float} : x ≤ y ↔ ∃ r q, rank x.toModel.unpack = some r ∧
    rank y.toModel.unpack = some q ∧ (r.order q).isLE = true := by
  change x.le y = true ↔ _
  simp only [Float.le, decide_eq_true_eq]
  change UnpackedFloat.le x.toModel.unpack y.toModel.unpack = true ↔ _
  cases hx : rank x.toModel.unpack <;> cases hy : rank y.toModel.unpack <;>
    simp [UnpackedFloat.le, compare_eq_order, hx, hy]

theorem lt_of_not_ge {x y : Float} (hx : x.isNaN = false) (hy : y.isNaN = false) (h : ¬ x ≥ y) :
    x < y := by
  obtain ⟨r, hr⟩ := exists_rank hx
  obtain ⟨q, hq⟩ := exists_rank hy
  refine lt_iff.2 ⟨r, q, hr, hq, ?_⟩
  have hle : ¬ (q.order r).isLE = true := fun hle => h (le_iff.2 ⟨q, r, hq, hr, hle⟩)
  rw [Rank.order_swap]
  cases ho : q.order r <;> simp_all

theorem not_lt_of_ge {x y : Float} (h : x ≥ y) : ¬ x < y := by
  intro hlt
  obtain ⟨q, r, hq, hr, hle⟩ := le_iff.1 h
  obtain ⟨r', q', hr', hq', ho⟩ := lt_iff.1 hlt
  obtain rfl := Option.some.inj (hr.symm.trans hr')
  obtain rfl := Option.some.inj (hq.symm.trans hq')
  rw [Rank.order_swap] at hle
  simp [ho] at hle

theorem not_ge_iff_lt {x y : Float} (hx : x.isNaN = false) (hy : y.isNaN = false) :
    ¬ x ≥ y ↔ x < y :=
  ⟨lt_of_not_ge hx hy, fun hlt hge => not_lt_of_ge hge hlt⟩

theorem isNaN_of_rank {x : Float} {r : Rank} (h : rank x.toModel.unpack = some r) :
    x.isNaN = false := by
  cases hx : x.isNaN with
  | true => cases (rank_eq_none.2 hx).symm.trans h
  | false => rfl

theorem isNaN_of_lt {x y : Float} (h : x < y) : x.isNaN = false := by
  obtain ⟨r, _, hr, _⟩ := lt_iff.1 h
  exact isNaN_of_rank hr

theorem isNaN_of_le {x y : Float} (h : x ≤ y) : x.isNaN = false ∧ y.isNaN = false := by
  obtain ⟨r, q, hr, hq, _⟩ := le_iff.1 h
  exact ⟨isNaN_of_rank hr, isNaN_of_rank hq⟩

theorem le_refl {x : Float} (hx : x.isNaN = false) : x ≤ x := by
  obtain ⟨r, hr⟩ := exists_rank hx
  exact le_iff.2 ⟨r, r, hr, hr, Std.ReflCmp.isLE_rfl⟩

theorem le_of_lt {x y : Float} (h : x < y) : x ≤ y := by
  obtain ⟨r, q, hr, hq, ho⟩ := lt_iff.1 h
  exact le_iff.2 ⟨r, q, hr, hq, ho ▸ rfl⟩

theorem le_trans {x y z : Float} (hxy : x ≤ y) (hyz : y ≤ z) : x ≤ z := by
  obtain ⟨r, q, hr, hq, hle⟩ := le_iff.1 hxy
  obtain ⟨q', p, hq', hp, hle'⟩ := le_iff.1 hyz
  obtain rfl := Option.some.inj (hq.symm.trans hq')
  exact le_iff.2 ⟨r, p, hr, hp, Std.TransCmp.isLE_trans hle hle'⟩

theorem lt_of_lt_of_le {x y z : Float} (hxy : x < y) (hyz : y ≤ z) : x < z := by
  obtain ⟨r, q, hr, hq, hlt⟩ := lt_iff.1 hxy
  obtain ⟨q', p, hq', hp, hle⟩ := le_iff.1 hyz
  obtain rfl := Option.some.inj (hq.symm.trans hq')
  exact lt_iff.2 ⟨r, p, hr, hp, Std.TransCmp.lt_of_lt_of_isLE hlt hle⟩

theorem lt_of_le_of_lt {x y z : Float} (hxy : x ≤ y) (hyz : y < z) : x < z := by
  obtain ⟨r, q, hr, hq, hle⟩ := le_iff.1 hxy
  obtain ⟨q', p, hq', hp, hlt⟩ := lt_iff.1 hyz
  obtain rfl := Option.some.inj (hq.symm.trans hq')
  exact lt_iff.2 ⟨r, p, hr, hp, Std.TransCmp.lt_of_isLE_of_lt hle hlt⟩

theorem not_infinite_lt (x : Float) : ¬ infinite < x := by
  intro h
  obtain ⟨_, q, _, hq, _⟩ := lt_iff.1 h
  cases hx : x.isNaN with
  | true => simp [rank_eq_none.2 hx] at hq
  | false => exact not_lt_of_ge (le_infinite hx) h

theorem isNaN_of_isFinite {x : Float} (h : x.isFinite = true) : x.isNaN = false := by
  simp only [Float.isFinite, Float.isNaN, Float.Model.isFinite, Float.Model.isNaN] at h ⊢
  cases hx : x.toModel.unpack with
  | notANumber => rw [hx] at h; cases h
  | infinity s => rfl
  | zero s => rfl
  | finite s m e hm => rfl

end RuleInduction.FloatOrder
