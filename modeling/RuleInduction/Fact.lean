import RuleInduction.Term
import RuleInduction.Decimal

namespace RuleInduction

structure Fact where
  weight : Float
  predicate : Predicate
  arguments : List String
  deriving Repr, Inhabited

namespace Fact

def arity (f : Fact) : Nat :=
  f.arguments.length

def withWeight (f : Fact) (weight : Float) : Fact :=
  { f with weight }

def render (f : Fact) : String :=
  Decimal.write f.weight ++ "::" ++ f.predicate ++ "(" ++ ",".intercalate f.arguments ++ ")."

end Fact

/-- The sum from left to right. It starts at minus zero, the neutral element of float addition, so
the sum of nothing is minus zero. -/
def sum (xs : List Float) : Float :=
  xs.foldl (· + ·) (-0.0)

def count {α : Type} (xs : List α) : Float :=
  Float.ofNat xs.length

def mean (xs : List Float) : Float :=
  if xs.isEmpty then 0.0 else sum xs / count xs

@[simp]
theorem mean_nil : mean [] = 0.0 := rfl

theorem mean_of_ne_nil {xs : List Float} (h : xs ≠ []) : mean xs = sum xs / count xs := by
  simp [mean, h]

end RuleInduction
