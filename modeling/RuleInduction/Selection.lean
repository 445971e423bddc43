import RuleInduction.Random.Weighted
import RuleInduction.Text.Lowercase

namespace RuleInduction

inductive Strategy where
  | best
  | roulette
  deriving DecidableEq, Repr

inductive Selection where
  | chosen (index : Nat)
  | declined
  /-- the weights of the wheel have no finite total, so no point of it can be drawn -/
  | unbounded
  deriving DecidableEq, Repr

namespace Strategy

def lowestFrom : Nat → Option (Nat × Float) → List Float → Option (Nat × Float)
  | _, lowest, [] => lowest
  | i, lowest, x :: xs =>
    if x.isNaN then lowestFrom (i + 1) lowest xs
    else
      match lowest with
      | some (j, y) =>
        if x ≥ y then lowestFrom (i + 1) (some (j, y)) xs
        else lowestFrom (i + 1) (some (i, x)) xs
      | none => lowestFrom (i + 1) (some (i, x)) xs

def lowest (impurities : List Float) : Option Nat :=
  (lowestFrom 0 none impurities).map Prod.fst

def share (impurity : Float) : Float :=
  let w := 1.0 - 2.0 * impurity
  if w > 0.0 then w else 0.0

def finite (impurities : List Float) : List (Float × Nat) :=
  impurities.zipIdx.filter fun e => e.1.isFinite

def shares (impurities : List Float) : List Float :=
  (finite impurities).map fun e => share e.1

def spin {G : Type} [RandomSource G] (impurities : List Float) (g : G) : Selection × G :=
  let shares := shares impurities
  let total := Random.total shares
  if total == 0.0 then (.declined, g)
  else if total.isFinite then
    let (place, g) := Random.weighted shares g
    match (finite impurities)[place]? with
    | some e => (.chosen e.2, g)
    | none => (.declined, g)
  else (.unbounded, g)

def select {G : Type} [RandomSource G] (strategy : Strategy) (impurities : List Float) (g : G) :
    Selection × G :=
  match strategy with
  | best =>
    match lowest impurities with
    | some index => (.chosen index, g)
    | none => (.declined, g)
  | roulette => spin impurities g

def name : Strategy → String
  | best => "best"
  | roulette => "roulette"

def ofName? (s : String) : Option Strategy :=
  [best, roulette].find? (·.name = s)

def parse (s : String) : Except String Strategy :=
  let lower := Text.lowercase s
  match ofName? lower with
  | some strategy => .ok strategy
  | none => .error s!"unknown strategy \"{lower}\", expected \"best\" or \"roulette\""

end Strategy

end RuleInduction
