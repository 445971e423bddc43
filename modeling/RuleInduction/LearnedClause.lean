import RuleInduction.Fact
import RuleInduction.Matching

namespace RuleInduction

structure Leaf where
  matched : Float
  unmatched : Float
  deriving Repr

inductive StopReason where
  | exhausted
  | noViableCandidate
  | noImprovement
  | maxLiterals
  | tooFewExamples
  | pure
  | unboundedWheel
  deriving DecidableEq, Repr

structure LearnedClause where
  head : List String
  clause : Clause
  leaves : List Leaf
  prior : Float
  stop : StopReason
  deriving Repr

namespace LearnedClause

def headBindings (c : LearnedClause) (f : Fact) : Bindings :=
  .ofHead c.head f.arguments

def binary (c : LearnedClause) (v : View) (f : Fact) : List Float :=
  binaryStrengths v (c.headBindings f) c.clause

def weighted (c : LearnedClause) (v : View) (f : Fact) : List Float :=
  weightedStrengths v (c.headBindings f) c.clause

/-- The mean weight at the leaf where strengths end: the unmatched side of the first literal that
fails, or the matched side of the last literal. -/
def leafValue (c : LearnedClause) (strengths : List Float) : Float :=
  match strengths.findIdx? (· ≤ 0.0) with
  | some k => (c.leaves[k]?.map Leaf.unmatched).getD c.prior
  | none => (c.leaves.getLast?.map Leaf.matched).getD c.prior

end LearnedClause

end RuleInduction
