import RuleInduction.Random

namespace RuleInduction.Random

variable {G : Type} [RandomSource G]

def shuffleFront : Nat → Nat → Array Nat → Option G → Array Nat × Option G
  | 0, _, places, g => (places, g)
  | n + 1, i, places, g =>
    let (j, g) := below (places.size - i) g
    shuffleFront n (i + 1) (places.swapIfInBounds i (i + j)) g

def sampleInPlace (length size : Nat) (g : Option G) : List Nat × Option G :=
  let (places, g) := shuffleFront size 0 (Array.range length) g
  (places.toList.take size, g)

/-- One place for each of the `n` numbers from `j` on: one that is not above it, or the number
itself if that place is taken. -/
def pickDistinct : Nat → Nat → List Nat → Option G → List Nat × Option G
  | 0, _, chosen, g => (chosen, g)
  | n + 1, j, chosen, g =>
    let (t, g) := below (j + 1) g
    pickDistinct n (j + 1) (chosen ++ [if t ∈ chosen then j else t]) g

def shuffledSize : Nat := 50

def samplePicked (length size : Nat) (g : Option G) : List Nat × Option G :=
  let (chosen, g) := pickDistinct size (length - size) [] g
  if size < shuffledSize then (chosen, g) else shuffle chosen g

def free? (length : Nat) (chosen : List Nat) (word : Nat) : Option Nat :=
  (scaled? length (exactZone length) word).filter (· ∉ chosen)

def pickFree? (length : Nat) : Nat → List Nat → G → Option (List Nat × G)
  | 0, chosen, g => some (chosen, g)
  | n + 1, chosen, g => do
    let (place, g) ← (width length).draw? (free? length chosen) g
    pickFree? length n (chosen ++ [place]) g

def sampleFree (length size : Nat) (g : Option G) : List Nat × Option G :=
  answer (List.range size) (g.bind (pickFree? length size []))

inductive SampleMethod where
  | inPlace
  | picked
  | free
  deriving DecidableEq, Repr

/-- The cheapest way to a sample. The costs are weighed in single precision, and differently from
half a million on. -/
def sampleMethod (length size : Nat) : SampleMethod :=
  let n := Float32.ofNat length
  let k := Float32.ofNat size
  let many := 500000 ≤ length
  if Width.narrow.size ≤ length then .free
  else if size < 163 then
    let cost := if many then 70.0 / 9.0 + 8.0 / 45.0 * k else 10.0 + 1.6 * k
    if 11 < size && n < cost * k then .inPlace else .picked
  else
    let cost := if many then 330.0 / 9.0 else 270.0
    if n < cost * k then .inPlace else .free

def sample (length size : Nat) (g : Option G) : List Nat × Option G :=
  match sampleMethod length size with
  | .inPlace => sampleInPlace length size g
  | .picked => samplePicked length size g
  | .free => sampleFree length size g

def subsequence {α : Type} (xs : List α) (size : Nat) (g : G) : List α × Option G :=
  if xs.length ≤ size then (xs, some g)
  else
    let (places, g) := sample xs.length size (some g)
    ((places.mergeSort (· ≤ ·)).filterMap (xs[·]?), g)

end RuleInduction.Random
