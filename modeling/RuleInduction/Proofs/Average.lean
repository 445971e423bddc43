import RuleInduction.Proofs.FloatBounds
import RuleInduction.Proofs.FloatCount

namespace RuleInduction

open FloatValue FloatArithmetic FloatBounds FloatCount

variable {xs : List Float}

theorem ofNat_le_ofNat {m n : ℕ} (h : m ≤ n) : Float.ofNat m ≤ Float.ofNat n := by
  rw [le_iff_ordinal (isNaN_of_ordinal (ordinal_ofNat m)) (isNaN_of_ordinal (ordinal_ofNat n)),
    ordinal_ofNat, ordinal_ofNat]
  exact rounded_mono (Nat.cast_le.2 h)

-- The floats `2 ^ 1023` and `2 ^ (-1074)`, the least one above zero.
def huge : Float :=
  .ofBits 0x7FE0000000000000

def tiny : Float :=
  .ofBits 1

theorem hasValue_huge : HasValue huge (2 ^ 1023) :=
  hasValue_two_pow (e := 971) (by decide) (by decide) (by decide)

theorem hasValue_tiny : HasValue tiny (2 ^ (-1074 : ℤ)) := by
  have h := hasValue_of_place (x := tiny) (v := ⟨1, -1074⟩)
    ⟨by decide, by decide, by decide, fun h => absurd rfl h⟩ (by decide) (by decide)
  rwa [Binary64.Dyadic.toRat, Nat.cast_one, one_mul] at h

theorem ofNat_bounds {n : ℕ} (hn : n ≠ 0) (hle : n ≤ 2 ^ 1023) :
    (Float.ofNat n).isFinite = true ∧ 1 ≤ toRat (Float.ofNat n) ∧
      toRat (Float.ofNat n) ≤ 2 ^ 1023 :=
  finite_of_between hasValue_one hasValue_huge
    (ge_of_ordinal hasValue_one (ordinal_ofNat n) (Nat.one_le_cast.2 (Nat.pos_of_ne_zero hn)))
    (le_of_ordinal hasValue_huge (ordinal_ofNat n) (by exact_mod_cast hle))

-- The share of `k` among `n` neither vanishes nor exceeds one.
theorem share_bounds {k n : ℕ} (hk : k ≠ 0) (hkn : k ≤ n) (hn : n ≤ 2 ^ 1023) :
    (Float.ofNat k / Float.ofNat n).isFinite = true ∧ 0 < toRat (Float.ofNat k / Float.ofNat n) ∧
      toRat (Float.ofNat k / Float.ofNat n) ≤ 1 := by
  obtain ⟨hpart, hpart_ge, -⟩ := ofNat_bounds hk (hkn.trans hn)
  obtain ⟨hwhole, hwhole_ge, hwhole_le⟩ := ofNat_bounds (by omega) hn
  have hpos : 0 < toRat (Float.ofNat n) := by linarith
  have hle : toRat (Float.ofNat k) ≤ toRat (Float.ofNat n) :=
    (le_iff_toRat hpart hwhole).1 (ofNat_le_ofNat hkn)
  have hquotient := ordinal_div hpart hwhole hpos.ne'
  have htiny : (2 : ℚ) ^ (-1074 : ℤ) ≤ toRat (Float.ofNat k) / toRat (Float.ofNat n) := by
    rw [le_div_iff₀ hpos]
    calc (2 : ℚ) ^ (-1074 : ℤ) * toRat (Float.ofNat n) ≤ 2 ^ (-1074 : ℤ) * 2 ^ 1023 :=
          mul_le_mul_of_nonneg_left hwhole_le (zpow_pos two_pos _).le
      _ = 2 ^ (-51 : ℤ) := by
          rw [← zpow_natCast, ← zpow_add₀ two_ne_zero]
          rfl
      _ ≤ 1 := zpow_le_one_of_nonpos₀ one_le_two (by decide)
      _ ≤ toRat (Float.ofNat k) := hpart_ge
  obtain ⟨hfinite, hlower, hupper⟩ := finite_of_between hasValue_tiny hasValue_one
    (ge_of_ordinal hasValue_tiny hquotient htiny)
    (le_of_ordinal hasValue_one hquotient ((div_le_one hpos).2 hle))
  exact ⟨hfinite, (zpow_pos two_pos _).trans_le hlower, hupper⟩

theorem isNaN_sum (h : ∀ x ∈ xs, x.isFinite = true) : (sum xs).isNaN = false :=
  List.foldlRecOn (motive := fun s : Float => s.isNaN = false) xs (· + ·) rfl
    fun _ hs x hx => isNaN_add_of_isFinite hs (h x hx)

theorem count_bounds (hne : xs ≠ []) (hlen : xs.length ≤ 2 ^ 1023) :
    (count xs).isFinite = true ∧ 0 < toRat (count xs) := by
  obtain ⟨hcount, hge, -⟩ := ofNat_bounds (List.length_pos_of_ne_nil hne).ne' hlen
  exact ⟨hcount, zero_lt_one.trans_le hge⟩

theorem isNaN_mean (h : ∀ x ∈ xs, x.isFinite = true) (hlen : xs.length ≤ 2 ^ 1023) :
    (mean xs).isNaN = false := by
  by_cases hne : xs = []
  · rw [hne]
    rfl
  · obtain ⟨hcount, hpos⟩ := count_bounds hne hlen
    rw [mean_of_ne_nil hne]
    exact isNaN_div_of_pos (isNaN_sum h) hcount hpos

theorem zero_le_sum (h : ∀ x ∈ xs, 0.0 ≤ x) : 0.0 ≤ sum xs :=
  List.foldlRecOn (motive := fun s : Float => 0.0 ≤ s) xs (· + ·) (by decide)
    fun _ hs x hx => le_add hasValue_zero hasValue_zero hasValue_zero hs (h x hx) (add_zero 0).ge

theorem sum_le_count (hx : ∀ x ∈ xs, x ≤ 1.0) (hlen : xs.length ≤ 2 ^ 53) : sum xs ≤ count xs := by
  induction xs using List.reverseRecOn with
  | nil => decide
  | append_singleton xs x ih =>
      rw [List.length_append, List.length_singleton] at hlen
      have hsum := ih (fun y hy => hx y (List.mem_append_left _ hy)) (Nat.le_of_succ_le hlen)
      have hlast : x ≤ 1.0 := hx x (List.mem_append_right _ (List.mem_singleton_self x))
      rw [sum_append, count, List.length_append, List.length_singleton]
      exact add_le (hasValue_ofNat (Nat.le_of_succ_le hlen)) hasValue_one (hasValue_ofNat hlen)
        hsum hlast (Nat.cast_succ _).ge

def InUnit (x : Float) : Prop :=
  0.0 ≤ x ∧ x ≤ 1.0

instance (x : Float) : Decidable (InUnit x) :=
  inferInstanceAs (Decidable (0.0 ≤ x ∧ x ≤ 1.0))

theorem inUnit_mean (hx : ∀ x ∈ xs, InUnit x) (hlen : xs.length ≤ 2 ^ 53) : InUnit (mean xs) := by
  by_cases hne : xs = []
  · subst hne
    decide
  · have hcount : HasValue (count xs) xs.length := hasValue_ofNat hlen
    have hpos : 0 < toRat (count xs) := by
      rw [hcount.toRat_eq]
      exact Nat.cast_pos.2 (List.length_pos_of_ne_nil hne)
    rw [mean_of_ne_nil hne]
    constructor
    · exact le_div_of_pos hasValue_zero hasValue_zero (zero_le_sum fun x h => (hx x h).1)
        hcount.finite hpos (zero_div _).ge
    · refine div_le_of_pos hcount hasValue_one (sum_le_count (fun x h => (hx x h).2) hlen)
        hcount.finite hpos ?_
      rw [hcount.toRat_eq] at hpos ⊢
      exact (div_self hpos.ne').le

end RuleInduction
