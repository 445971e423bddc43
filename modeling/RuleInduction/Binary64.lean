namespace RuleInduction.Binary64

/-- Bits are those of nonnegative floats, in increasing order of their values; the sign is kept
apart. -/
def infinityBits : Nat := 0x7FF0000000000000

structure Dyadic where
  mantissa : Nat
  exponent : Int
  deriving DecidableEq, Repr

def value (bits : Nat) : Dyadic :=
  if bits < Nat.pow 2 52 then ⟨bits, -1074⟩
  else ⟨bits % Nat.pow 2 52 + Nat.pow 2 52, (bits / Nat.pow 2 52 : Nat) - 1075⟩

def Dyadic.ratio (v : Dyadic) : Nat × Nat :=
  (v.mantissa * Nat.pow 2 v.exponent.toNat, Nat.pow 2 (-v.exponent).toNat)

def roundHalfEven (num den : Nat) : Nat :=
  let whole := num / den
  let twice := 2 * (num % den)
  if twice < den then whole
  else if den < twice then whole + 1
  else whole + whole % 2

def inUnits (num den : Nat) (exponent : Int) : Nat × Nat :=
  (num * Nat.pow 2 (-exponent).toNat, den * Nat.pow 2 exponent.toNat)

/-- The unit of the floats around `num / den`: it leaves a mantissa of 53 binary digits, and of
fewer only below the least normal float. -/
def unitExponent (num den : Nat) : Int :=
  let guess : Int := (Nat.log2 num : Int) - Nat.log2 den - 52
  let scaled := inUnits num den guess
  max (if scaled.1 / scaled.2 < Nat.pow 2 52 then guess - 1 else guess) (-1074)

/-- The bits of the float nearest to `num / den`, for `den` not zero. A mantissa rounded up to
`2 ^ 53` carries into the exponent, and a value beyond the finite floats is infinite. -/
def nearest (num den : Nat) : Nat :=
  if num = 0 then 0
  else
    let exponent := unitExponent num den
    let scaled := inUnits num den exponent
    min ((exponent + 1074).toNat * Nat.pow 2 52 + roundHalfEven scaled.1 scaled.2) infinityBits

def toFloat (negative : Bool) (bits : Nat) : Float :=
  Float.ofBits (UInt64.ofNat (bits + if negative then Nat.pow 2 63 else 0))

end RuleInduction.Binary64
