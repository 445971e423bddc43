import RuleInduction.Random

namespace RuleInduction

structure ChaCha where
  key : Vector UInt32 8
  place : Nat
  deriving DecidableEq, Repr

namespace ChaCha

abbrev Block := Vector UInt32 16

def rotateLeft (x n : UInt32) : UInt32 :=
  (x <<< n) ||| (x >>> (32 - n))

def quarterRound (s : Block) (a b c d : Fin 16) : Block :=
  let s := s.set a (s[a] + s[b])
  let s := s.set d (rotateLeft (s[d] ^^^ s[a]) 16)
  let s := s.set c (s[c] + s[d])
  let s := s.set b (rotateLeft (s[b] ^^^ s[c]) 12)
  let s := s.set a (s[a] + s[b])
  let s := s.set d (rotateLeft (s[d] ^^^ s[a]) 8)
  let s := s.set c (s[c] + s[d])
  s.set b (rotateLeft (s[b] ^^^ s[c]) 7)

def doubleRound (s : Block) : Block :=
  let s := quarterRound s 0 4 8 12
  let s := quarterRound s 1 5 9 13
  let s := quarterRound s 2 6 10 14
  let s := quarterRound s 3 7 11 15
  let s := quarterRound s 0 5 10 15
  let s := quarterRound s 1 6 11 12
  let s := quarterRound s 2 7 8 13
  quarterRound s 3 4 9 14

def start (key : Vector UInt32 8) (number : UInt64) : Block :=
  (#v[0x61707865, 0x3320646E, 0x79622D32, 0x6B206574] : Vector UInt32 4) ++ key ++
    (#v[number.toUInt32, (number >>> 32).toUInt32, 0, 0] : Vector UInt32 4)

def block (key : Vector UInt32 8) (number : UInt64) : Block :=
  let s := start key number
  let mixed := Nat.repeat doubleRound 6 s
  s.zipWith (· + ·) mixed

def word (key : Vector UInt32 8) (place : Nat) : UInt32 :=
  (block key (UInt64.ofNat (place / 16))).get ⟨place % 16, Nat.mod_lt _ (by decide)⟩

instance : RandomSource ChaCha where
  word32 g := (word g.key g.place, { g with place := g.place + 1 })
  word64 g :=
    let low := word g.key g.place
    let high := word g.key (g.place + 1)
    (high.toUInt64 <<< 32 ||| low.toUInt64, { g with place := g.place + 2 })

/-- A congruential generator that spreads a seed over the key. -/
def spread (state : UInt64) : UInt64 :=
  state * 6364136223846793005 + 11634580027462260723

def spreadWord (state : UInt64) : UInt32 :=
  let x := (((state >>> 18) ^^^ state) >>> 27).toUInt32
  let turn := (state >>> 59).toUInt32
  (x >>> turn) ||| (x <<< ((32 - turn) % 32))

def ofSeed (seed : UInt64) : ChaCha :=
  ⟨Vector.ofFn fun i => spreadWord (Nat.repeat spread (i + 1) seed), 0⟩

end ChaCha

structure SplitMix where
  state : UInt64
  deriving DecidableEq, Repr

namespace SplitMix

def increment : UInt64 := 0x9E3779B97F4A7C15

def mix (z : UInt64) : UInt64 :=
  let z := (z ^^^ (z >>> 30)) * 0xBF58476D1CE4E5B9
  let z := (z ^^^ (z >>> 27)) * 0x94D049BB133111EB
  z ^^^ (z >>> 31)

def next (g : SplitMix) : UInt64 × SplitMix :=
  let state := g.state + increment
  (mix state, ⟨state⟩)

instance : RandomSource SplitMix where
  word32 g := ((g.next.1 >>> 32).toUInt32, g.next.2)
  word64 := next

end SplitMix

end RuleInduction
