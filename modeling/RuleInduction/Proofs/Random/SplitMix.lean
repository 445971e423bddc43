import Mathlib.Data.Finite.Prod
import RuleInduction.Proofs.Random.Fair
import RuleInduction.Random.Generator

namespace RuleInduction.SplitMix

open RuleInduction.Random

theorem xor_shiftRight_injective (n : UInt64) (hn : n.toNat % 64 ≠ 0) :
    Function.Injective fun x : UInt64 => x ^^^ x >>> n := by
  intro x y hxy
  dsimp only at hxy
  -- The difference of the two words is its own shift, so that it has no bits.
  have hshift : x ^^^ y = (x ^^^ y) >>> n := by
    rw [← UInt64.xor_eq_zero_iff, UInt64.shiftRight_xor]
    calc x ^^^ y ^^^ (x >>> n ^^^ y >>> n) = (x ^^^ x >>> n) ^^^ (y ^^^ y >>> n) := by ac_rfl
      _ = 0 := by rw [hxy, UInt64.xor_self]
  have hvalue := congrArg UInt64.toNat hshift
  rw [UInt64.toNat_shiftRight, Nat.shiftRight_eq_div_pow] at hvalue
  refine UInt64.xor_eq_zero_iff.1 (UInt64.toNat_inj.1 ?_)
  exact Nat.eq_zero_of_le_div (Nat.one_lt_two_pow hn) hvalue.le

theorem mul_injective (factor inverse : UInt64) (h : factor * inverse = 1) :
    Function.Injective fun x : UInt64 => x * factor := by
  refine Function.LeftInverse.injective (g := fun x => x * inverse) fun x => ?_
  dsimp only
  rw [UInt64.mul_assoc, h, UInt64.mul_one]

theorem mix_injective : Function.Injective mix :=
  (xor_shiftRight_injective 31 (by decide)).comp <|
    (mul_injective 0x94D049BB133111EB 0x319642B2D24D8EC3 (by decide)).comp <|
      (xor_shiftRight_injective 27 (by decide)).comp <|
        (mul_injective 0xBF58476D1CE4E5B9 0x96DE1B173F119089 (by decide)).comp <|
          xor_shiftRight_injective 30 (by decide)

theorem mix_surjective : Function.Surjective mix := by
  have : Finite UInt64 := Finite.of_injective UInt64.toFin fun _ _ => UInt64.toFin_inj.1
  exact Finite.surjective_of_injective mix_injective

theorem word_snd (w : Width) (g : SplitMix) : (word w g).2 = ⟨g.state + increment⟩ := by
  cases w <;> rfl

theorem comes_of_state {w : Width} {p : Nat → Prop} (n : Nat) (g : SplitMix)
    (h : p (word w (⟨g.state + UInt64.ofNat n * increment⟩ : SplitMix)).1) : Comes w p g := by
  induction n generalizing g with
  | zero =>
      have hzero : UInt64.ofNat 0 * increment = 0 := UInt64.zero_mul
      rw [hzero, UInt64.add_zero] at h
      exact .now h
  | succ n ih =>
      refine .later (ih _ ?_)
      rw [word_snd]
      rwa [Nat.add_comm, UInt64.ofNat_add, UInt64.add_mul, UInt64.ofNat_one, UInt64.one_mul,
        ← UInt64.add_assoc] at h

/-- The counter goes through all of its values, as its increment is odd, and the mixing gives each
word for one of them. -/
theorem comes_of_next {w : Width} {p : Nat → Prop} (z : UInt64) (g : SplitMix)
    (h : ∀ g' : SplitMix, g'.next.1 = z → p (word w g').1) : Comes w p g := by
  obtain ⟨state, rfl⟩ := mix_surjective z
  have hunit : 0xF1DE83E19937733D * increment = 1 := by decide
  refine comes_of_state ((state - increment - g.state) * 0xF1DE83E19937733D).toNat g (h _ ?_)
  rw [UInt64.ofNat_toNat, UInt64.mul_assoc, hunit, UInt64.mul_one, UInt64.add_comm g.state,
    UInt64.sub_add_cancel]
  exact congrArg mix (UInt64.sub_add_cancel _ _)

theorem fair (g : SplitMix) : Fair g := by
  intro g' _ w word hword
  cases w with
  | narrow =>
      have hlt : word * 2 ^ 32 < 2 ^ 64 := Nat.mul_lt_mul_of_pos_right hword (Nat.two_pow_pos 32)
      refine comes_of_next (UInt64.ofNat (word * 2 ^ 32)) g' fun g₁ h => ?_
      change (g₁.next.1 >>> 32).toUInt32.toNat = word
      rw [h, UInt64.toNat_toUInt32, UInt64.toNat_shiftRight, UInt64.toNat_ofNat_of_lt' hlt,
        Nat.shiftRight_eq_div_pow]
      exact (congrArg (· % 2 ^ 32) (Nat.mul_div_cancel word (Nat.two_pow_pos 32))).trans
        (Nat.mod_eq_of_lt hword)
  | wide =>
      refine comes_of_next (UInt64.ofNat word) g' fun g₁ h => ?_
      exact (congrArg UInt64.toNat h).trans (UInt64.toNat_ofNat_of_lt hword)

end RuleInduction.SplitMix
