import RuleInduction.Random

namespace RuleInduction.Random

variable {G : Type} [RandomSource G]

def cumulative : List Float → List Float
  | [] => []
  | w :: ws => go w ws
where
  go (total : Float) : List Float → List Float
    | [] => [total]
    | w :: ws => total :: go (total + w) ws

def total (weights : List Float) : Float :=
  (cumulative weights).getLastD 0.0

def epsilon : Float := Float.ofBits 0x3CB0000000000000

/-- The greatest scale, from `scale` down, at which a fraction below one stays below the total. It
goes down one float at a time and cannot pass zero. -/
def scaleWithin (total : Float) : Nat → Float → Float
  | 0, scale => scale
  | steps + 1, scale =>
    if scale * (1.0 - epsilon) ≥ total then
      scaleWithin total steps (Float.ofBits (scale.toBits - 1))
    else scale

def scale (total : Float) : Float :=
  scaleWithin total total.toBits.toNat total

def fraction (g : G) : Float × G :=
  let (word, g) := RandomSource.word64 g
  ((word >>> 12).toFloat * epsilon, g)

def placeOf (weights : List Float) (point : Float) : Nat :=
  (cumulative weights).dropLast.countP fun c => c ≤ point

def weighted (weights : List Float) (g : G) : Nat × G :=
  let (u, g) := fraction g
  (placeOf weights (u * scale (total weights) + 0.0), g)

end RuleInduction.Random
