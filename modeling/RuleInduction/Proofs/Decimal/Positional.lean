import Mathlib
import RuleInduction.Decimal
import RuleInduction.Proofs.Decimal
import RuleInduction.Proofs.Decimal.Numeral
import RuleInduction.Proofs.FloatOrder

namespace RuleInduction.Decimal

open Binary64 Numeral

variable {n : ℕ}

structure Leading (cs : List Char) : Prop where
  ne_nil : cs ≠ []
  digits : Digits cs
  zero : cs.head? = some '0' → cs = ['0']

theorem digits_toDigits (n : ℕ) : Digits (Nat.toDigits 10 n) :=
  fun _ hc => Nat.isDigit_of_mem_toDigits (by decide) (by decide) hc

theorem head?_toDigits (h : 0 < n) : (Nat.toDigits 10 n).head? ≠ some '0' := by
  induction n using Nat.strong_induction_on with
  | _ n ih =>
      rcases Nat.lt_or_ge n 10 with hlt | hge
      · rw [Nat.toDigits_of_lt_base hlt]
        interval_cases n <;> decide
      · rw [Nat.toDigits_of_base_le (by decide) hge,
          List.head?_append_of_ne_nil _ Nat.toDigits_ne_nil]
        exact ih (n / 10) (by omega) (by omega)

theorem leading_toDigits (n : ℕ) : Leading (Nat.toDigits 10 n) := by
  refine ⟨Nat.toDigits_ne_nil, digits_toDigits n, fun hzero => ?_⟩
  rcases Nat.eq_zero_or_pos n with rfl | hpos
  · rfl
  · exact absurd hzero (head?_toDigits hpos)

theorem digits_zeros (k : ℕ) : Digits (List.replicate k '0') := by
  intro c hc
  rw [List.eq_of_mem_replicate hc]
  rfl

theorem digits_append {cs ds : List Char} (hcs : Digits cs) (hds : Digits ds) :
    Digits (cs ++ ds) :=
  fun c hc => (List.mem_append.1 hc).elim (hcs c) (hds c)

inductive Written : List Char → List Char → List Char → Prop
  | whole {ds : List Char} (h : Leading ds) : Written ds ds []
  | point {whole fraction : List Char} (h : Leading whole) (hne : fraction ≠ [])
      (hfraction : Digits fraction) : Written (whole ++ '.' :: fraction) whole fraction

theorem Written.mantissa {m whole fraction : List Char} (h : Written m whole fraction) :
    Mantissa m whole fraction := by
  cases h with
  | whole h => exact .whole h.ne_nil h.digits
  | point h hne hfraction => exact .point h.ne_nil h.digits hfraction

theorem leading_append_zeros (hn : 0 < n) (k : ℕ) :
    Leading (Nat.toDigits 10 n ++ List.replicate k '0') := by
  refine ⟨List.append_ne_nil_of_left_ne_nil Nat.toDigits_ne_nil _,
    digits_append (digits_toDigits n) (digits_zeros k), fun hzero => ?_⟩
  rw [List.head?_append_of_ne_nil _ Nat.toDigits_ne_nil] at hzero
  exact absurd hzero (head?_toDigits hn)

def padded (n places : ℕ) : List Char :=
  List.replicate (places + 1 - (Nat.toDigits 10 n).length) '0' ++ Nat.toDigits 10 n

theorem digits_padded (n places : ℕ) : Digits (padded n places) :=
  digits_append (digits_zeros _) (digits_toDigits n)

theorem lt_length_padded (n places : ℕ) : places < (padded n places).length := by
  rw [padded, List.length_append, List.length_replicate]
  omega

theorem ofDigitChars_padded (n places : ℕ) : Nat.ofDigitChars 10 (padded n places) 0 = n := by
  rw [padded, Nat.ofDigitChars_append, Nat.ofDigitChars_replicate_zero, Nat.mul_zero,
    Nat.ofDigitChars_ten_toDigits]

theorem length_drop_padded (n places : ℕ) :
    ((padded n places).drop ((padded n places).length - places)).length = places := by
  have hlt := lt_length_padded n places
  rw [List.length_drop]
  omega

-- If zeros are filled in at all, they reach to the place before the point, where one stands alone.
theorem leading_take_padded (hn : 0 < n) (places : ℕ) :
    Leading ((padded n places).take ((padded n places).length - places)) := by
  have hlt := lt_length_padded n places
  refine ⟨?_, fun c hc => digits_padded n places c (List.mem_of_mem_take hc), fun hzero => ?_⟩
  · rw [ne_eq, List.take_eq_nil_iff, ← List.length_eq_zero_iff]
    omega
  · rcases Nat.lt_or_ge places (Nat.toDigits 10 n).length with hmore | hfew
    · have hpadded : padded n places = Nat.toDigits 10 n := by
        rw [padded, Nat.sub_eq_zero_of_le hmore]
        rfl
      rw [List.head?_take, if_neg (by omega), hpadded] at hzero
      exact absurd hzero (head?_toDigits hn)
    · have hpoint : (padded n places).length - places = 1 := by
        rw [padded, List.length_append, List.length_replicate]
        omega
      rw [hpoint, padded, Nat.succ_sub hfew, List.replicate_succ]
      rfl

theorem written_positional {d : Decimal} (h : 0 < d.digits) :
    ∃ whole fraction, Written d.positional whole fraction ∧
      (ofParts whole fraction 0).toRat = d.toRat := by
  rcases Nat.eq_zero_or_pos (-d.exponent).toNat with hplaces | hplaces
  · refine ⟨Nat.toDigits 10 d.digits ++ List.replicate d.exponent.toNat '0', [], ?_, ?_⟩
    · rw [positional, if_pos hplaces]
      exact .whole (leading_append_zeros h _)
    · have hexponent : d.exponent = (d.exponent.toNat : ℕ) := by omega
      have hvalue : (10 : ℚ) ^ d.exponent = 10 ^ d.exponent.toNat := by
        rw [hexponent, zpow_natCast, Int.toNat_natCast]
      rw [toRat, toRat, hvalue, ofParts, List.append_nil, Nat.ofDigitChars_append,
        Nat.ofDigitChars_ten_toDigits, Nat.ofDigitChars_replicate_zero, List.length_nil]
      push_cast
      rw [mul_one, mul_comm]
  · let places := (-d.exponent).toNat
    let digits := padded d.digits places
    have hlength := length_drop_padded d.digits places
    refine ⟨digits.take (digits.length - places), digits.drop (digits.length - places), ?_, ?_⟩
    · rw [positional, if_neg hplaces.ne']
      refine .point (leading_take_padded h places) ?_ fun c hc =>
        digits_padded _ _ c (List.mem_of_mem_drop hc)
      exact List.ne_nil_of_length_pos (hlength.symm ▸ hplaces)
    · have hexponent : (0 : ℤ) - places = d.exponent := by
        rw [Int.toNat_of_nonneg (by omega), zero_sub, neg_neg]
      rw [toRat, ofParts, List.take_append_drop, ofDigitChars_padded, hlength, hexponent, toRat]

theorem bits_point_zero (whole : List Char) :
    (ofParts whole ['0'] 0).bits = (ofParts whole [] 0).bits := by
  have hdigits : Nat.ofDigitChars 10 (whole ++ ['0']) 0 = 10 * Nat.ofDigitChars 10 whole 0 := by
    rw [Nat.ofDigitChars_append]
    exact Nat.ofDigitChars_replicate_zero (n := 1)
  rw [bits_eq_ofRat, bits_eq_ofRat, toRat, toRat, ofParts, ofParts, hdigits, List.append_nil]
  congr 1
  push_cast
  norm_num
  ring

variable {bits : ℕ}

theorem digits_shortest (hpos : 0 < bits) (h : bits < infinityBits) :
    0 < (shortest bits).digits := by
  refine Nat.pos_of_ne_zero fun hzero => ?_
  have hbits := bits_shortest (bits_exact h)
  rw [Decimal.bits, if_pos hzero] at hbits
  omega

theorem written_writeBits (h : bits < infinityBits) :
    ∃ whole fraction, Written (writeBits bits) whole fraction ∧
      (ofParts whole fraction 0).bits = bits := by
  rw [writeBits]
  split
  · next hzero => exact ⟨['0'], [], .whole ⟨by decide, by decide, fun _ => rfl⟩, hzero ▸ rfl⟩
  · next hne =>
      obtain ⟨whole, fraction, hwritten, hvalue⟩ :=
        written_positional (digits_shortest (Nat.pos_of_ne_zero hne) h)
      refine ⟨whole, fraction, hwritten, ?_⟩
      rw [bits_eq_ofRat, hvalue, ← bits_eq_ofRat, bits_shortest (bits_exact h)]

variable {x : Float}

def isNegative (x : Float) : Bool :=
  2 ^ 63 ≤ x.toBits.toNat

def unsigned (x : Float) : ℕ :=
  x.toBits.toNat % 2 ^ 63

theorem toFloat_unsigned (x : Float) : Binary64.toFloat (isNegative x) (unsigned x) = x := by
  have hbound : x.toBits.toNat < 2 ^ 64 := x.toBits.toNat_lt
  have hbits : unsigned x + (if isNegative x then 2 ^ 63 else 0) = x.toBits.toNat := by
    simp only [unsigned, isNegative, decide_eq_true_eq]
    split <;> omega
  calc Binary64.toFloat (isNegative x) (unsigned x)
      = Float.ofBits (UInt64.ofNat x.toBits.toNat) :=
        congrArg (fun n => Float.ofBits (.ofNat n)) hbits
    _ = x := by rw [UInt64.ofNat_toNat, Float.ofBits_toBits]

open Float.Model (UnpackedFloat Format)

theorem unpackExponent_eq_neg_one_iff (x : Float) :
    @UnpackedFloat.unpackExponent Format.binary64 x.toBits.toBitVec = -1#11 ↔
      infinityBits ≤ unsigned x := by
  rw [← BitVec.toNat_inj, UnpackedFloat.unpackExponent_def, BitVec.extractLsb'_toNat,
    Nat.shiftRight_eq_div_pow]
  change x.toBits.toNat / 2 ^ 52 % 2 ^ 11 = 2047 ↔ 2047 * 2 ^ 52 ≤ x.toBits.toNat % 2 ^ 63
  omega

theorem isFinite_iff : x.isFinite = true ↔ unsigned x < infinityBits := by
  rw [← Nat.not_le, ← unpackExponent_eq_neg_one_iff]
  change (UnpackedFloat.unpack Format.binary64 x.toBits.toBitVec).isFinite = true ↔ _
  simp only [UnpackedFloat.unpack]
  split
  · next h =>
      refine iff_of_false ?_ (not_not.2 h)
      split <;> exact Bool.false_ne_true
  · next h =>
      refine iff_of_true ?_ h
      split
      · split <;> rfl
      · rfl

theorem isNaN_of_infinityBits_lt (h : infinityBits < unsigned x) : x.isNaN = true := by
  have hmantissa :
      @UnpackedFloat.unpackMantissa Format.binary64 x.toBits.toBitVec ≠ 0#52 := by
    rw [ne_eq, ← BitVec.toNat_inj, UnpackedFloat.unpackMantissa_def, BitVec.extractLsb'_toNat]
    change ¬ x.toBits.toNat % 2 ^ 52 = 0
    change 2047 * 2 ^ 52 < x.toBits.toNat % 2 ^ 63 at h
    omega
  change (UnpackedFloat.unpack Format.binary64 x.toBits.toBitVec).isNaN = true
  simp only [UnpackedFloat.unpack]
  rw [if_pos ((unpackExponent_eq_neg_one_iff x).2 h.le), if_neg hmantissa]
  rfl

theorem unsigned_eq_infinityBits_iff (h : x.isNaN = false) :
    unsigned x = infinityBits ↔ ¬ x.isFinite = true := by
  have hle : unsigned x ≤ infinityBits :=
    Nat.not_lt.1 fun hlt => Bool.false_ne_true (h.symm.trans (isNaN_of_infinityBits_lt hlt))
  rw [isFinite_iff]
  omega

def minus (x : Float) : List Char :=
  if isNegative x then ['-'] else []

theorem sign_minus (x : Float) : Sign (minus x) (isNegative x) := by
  rw [minus]
  cases isNegative x with
  | true => exact .minus
  | false => exact .absent

theorem toList_write (h : x.isNaN = false) : (write x).toList =
    minus x ++ if x.isFinite then writeBits (unsigned x) else ['i', 'n', 'f'] := by
  have hsign : (if x.toBits.toNat < Nat.pow 2 63 then "" else "-").toList = minus x := by
    change (if x.toBits.toNat < 2 ^ 63 then "" else "-").toList = _
    by_cases hlt : x.toBits.toNat < 2 ^ 63
    · rw [if_pos hlt, minus, isNegative, decide_eq_false (Nat.not_le.2 hlt)]
      rfl
    · rw [if_neg hlt, minus, isNegative, decide_eq_true (Nat.not_lt.1 hlt)]
      rfl
  change (if x.isNaN then "NaN" else if unsigned x = infinityBits then _ ++ "inf"
    else _ ++ String.ofList (writeBits (unsigned x))).toList = _
  rw [h, if_neg Bool.false_ne_true, if_congr (unsigned_eq_infinityBits_iff h) rfl rfl,
    ite_not, ← hsign]
  split
  · rw [String.toList_append, String.toList_ofList]
  · exact String.toList_append

theorem exists_written (h : x.isFinite = true) :
    ∃ m whole fraction, (write x).toList = minus x ++ m ∧ Written m whole fraction ∧
      (ofParts whole fraction 0).bits = unsigned x := by
  obtain ⟨whole, fraction, hwritten, hbits⟩ := written_writeBits (isFinite_iff.1 h)
  refine ⟨_, whole, fraction, ?_, hwritten, hbits⟩
  rw [toList_write (FloatOrder.isNaN_of_isFinite h), if_pos h]

theorem toFloat_of_bits {d : Decimal} (h : d.bits = unsigned x) : d.toFloat (isNegative x) = x := by
  rw [Decimal.toFloat, h, toFloat_unsigned]

theorem denotes_write (h : x.isFinite = true) : Denotes (write x).toList x := by
  obtain ⟨m, whole, fraction, htext, hwritten, hbits⟩ := exists_written h
  have hdenotes := Denotes.decimal (sign_minus x) hwritten.mantissa .absent
  rwa [toFloat_of_bits hbits, List.append_nil, ← htext] at hdenotes

theorem isNumeralChar_head?_write (h : x.isFinite = true) (rest : List Char) :
    ∀ c ∈ ((write x).toList ++ rest).head?, isNumeralChar c = true := by
  obtain ⟨m, whole, fraction, htext, hwritten, _⟩ := exists_written h
  rw [htext, List.append_assoc]
  exact isNumeralChar_head? (sign_minus x) hwritten.mantissa

end RuleInduction.Decimal
