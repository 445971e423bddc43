import RuleInduction.ClauseSearch

namespace RuleInduction

inductive Limit where
  | count (n : Nat)
  | fraction (x : Float)
  deriving BEq, Repr

structure Settings where
  criterion : Option Criterion := none
  strategy : Strategy := .best
  maxLiterals : Option Nat := none
  maxPredicates : Option Limit := none
  minExamples : Limit := .count 1
  clauses : Nat := 1
  sampleRatio : Float := 1.0
  recursive : Bool := false
  seed : Option UInt64 := none
  deriving BEq, Repr

structure ResolvedSettings where
  limits : SearchLimits
  clauses : Nat
  sampleSize : Nat
  deriving Repr

def wholeBelow (x : Float) : Nat :=
  x.toUInt64.toNat

def wholeAbove (x : Float) : Nat :=
  let n := wholeBelow x
  if Float.ofNat n < x then n + 1 else n

def isFraction (x : Float) : Bool :=
  x > 0.0 && x ≤ 1.0

namespace Limit

def checkFraction (setting : String) (x : Float) : Except SetupError Unit :=
  if isFraction x then .ok () else .error (.fractionOutOfRange setting x)

def checkCount (setting : String) (n : Nat) : Except SetupError Nat :=
  if n = 0 then .error (.limitTooLow setting (Nat.repr n) 1) else .ok n

def resolve (round : Float → Nat) (setting : String) (total : Nat) :
    Limit → Except SetupError Nat
  | count n => checkCount setting n
  | fraction x => do
    checkFraction setting x
    checkCount setting (round (x * Float.ofNat total))

end Limit

namespace Settings

def sampleSize (s : Settings) (examples : Nat) : Nat :=
  min (max 1 (wholeAbove (s.sampleRatio * Float.ofNat examples))) (max examples 1)

def resolve (s : Settings) (criterion : Criterion) (examples predicates : Nat) :
    Except SetupError ResolvedSettings := do
  let maxLiterals ← s.maxLiterals.mapM (Limit.checkCount "max_literals")
  let maxPredicates ← s.maxPredicates.mapM (Limit.resolve wholeBelow "max_predicates" predicates)
  let minExamples ← s.minExamples.resolve wholeAbove "min_examples_learn" examples
  let clauses ← Limit.checkCount "n_clauses" s.clauses
  Limit.checkFraction "sample_ratio" s.sampleRatio
  return {
    limits := {
      maxLiterals, maxPredicates, minExamples
      criterion := s.criterion.getD criterion
      strategy := s.strategy
      recursive := s.recursive }
    clauses
    sampleSize := s.sampleSize examples }

end Settings

end RuleInduction
