import RuleInduction.Binary64

namespace RuleInduction

structure Decimal where
  digits : Nat
  exponent : Int
  deriving DecidableEq, Repr

namespace Decimal

def digitCount (n : Nat) : Nat :=
  (Nat.toDigits 10 n).length

def ratio (d : Decimal) : Nat × Nat :=
  (d.digits * Nat.pow 10 d.exponent.toNat, Nat.pow 10 (-d.exponent).toNat)

/-- The bits of the float nearest to a decimal. From `10 ^ 310` on a decimal is infinite and below
`10 ^ (-330)` it is zero, whatever its digits, so those powers of ten are not computed. -/
def bits (d : Decimal) : Nat :=
  let magnitude : Int := digitCount d.digits + d.exponent
  if d.digits = 0 then 0
  else if 310 < magnitude then Binary64.infinityBits
  else if magnitude < -330 then 0
  else Binary64.nearest d.ratio.1 d.ratio.2

def toFloat (negative : Bool) (d : Decimal) : Float :=
  Binary64.toFloat negative d.bits

def magnitude (num den : Nat) : Int :=
  if den ≤ num then digitCount (num / den) else 1 - digitCount ((den - 1) / num)

/-- Of the two decimals with the given exponent on either side of `num / den`, one that reads back
as `bits`; the nearer one if both do, and the one above if they are equally near. -/
def onGrid (bits num den : Nat) (exponent : Int) : Option Decimal :=
  let top := num * Nat.pow 10 (-exponent).toNat
  let bottom := den * Nat.pow 10 exponent.toNat
  let below : Decimal := ⟨top / bottom, exponent⟩
  let above : Decimal := ⟨top / bottom + 1, exponent⟩
  if below.bits = bits ∧ (2 * (top % bottom) < bottom ∨ above.bits ≠ bits) then some below
  else if above.bits = bits then some above
  else none

theorem bits_of_onGrid {bits num den : Nat} {exponent : Int} {d : Decimal}
    (h : onGrid bits num den exponent = some d) : d.bits = bits := by
  simp only [onGrid] at h
  split at h
  · next hb => cases h; exact hb.1
  · split at h
    · next ha => cases h; exact ha
    · cases h

def exact (bits : Nat) : Decimal :=
  let v := Binary64.value bits
  ⟨v.mantissa * Nat.pow 2 v.exponent.toNat * Nat.pow 5 (-v.exponent).toNat, min v.exponent 0⟩

/-- The shortest decimal that reads back as the bits of a finite float above zero. Seventeen digits
always suffice; the grid without a digit holds the next power of ten. -/
def shortest (bits : Nat) : Decimal :=
  let r := (Binary64.value bits).ratio
  let grids := (List.range 18).map fun n : Nat => magnitude r.1 r.2 - n
  (grids.findSome? (onGrid bits r.1 r.2)).getD (exact bits)

theorem bits_shortest {bits : Nat} (h : (exact bits).bits = bits) :
    (shortest bits).bits = bits := by
  simp only [shortest]
  generalize (List.range 18).map _ = grids
  cases hf : grids.findSome? _ with
  | none => exact h
  | some d =>
      obtain ⟨_, _, hd⟩ := List.exists_of_findSome?_eq_some hf
      exact bits_of_onGrid hd

def positional (d : Decimal) : List Char :=
  let ds := Nat.toDigits 10 d.digits
  let places := (-d.exponent).toNat
  if places = 0 then ds ++ List.replicate d.exponent.toNat '0'
  else
    let padded := List.replicate (places + 1 - ds.length) '0' ++ ds
    padded.take (padded.length - places) ++ '.' :: padded.drop (padded.length - places)

def writeBits (bits : Nat) : List Char :=
  if bits = 0 then ['0'] else (shortest bits).positional

def write (x : Float) : String :=
  let bits := x.toBits.toNat
  let magnitude := bits % Nat.pow 2 63
  let sign := if bits < Nat.pow 2 63 then "" else "-"
  if x.isNaN then "NaN"
  else if magnitude = Binary64.infinityBits then sign ++ "inf"
  else sign ++ String.ofList (writeBits magnitude)

end Decimal

end RuleInduction
