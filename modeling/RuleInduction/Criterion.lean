import RuleInduction.Fact
import RuleInduction.Text.Lowercase

namespace RuleInduction

inductive Criterion where
  | gini
  | mse
  deriving DecidableEq, Repr

def infinite : Float := 1.0 / 0.0

theorem isNaN_infinite : infinite.isNaN = false := rfl

theorem le_infinite {x : Float} (h : x.isNaN = false) : x ≤ infinite := by
  show x.le infinite = true
  simp only [Float.le, decide_eq_true_eq]
  show Float.Model.le x.toModel infinite.toModel = true
  have hi : infinite.toModel.unpack = .infinity .positive := rfl
  simp only [Float.Model.le, hi]
  simp only [Float.isNaN, Float.Model.isNaN] at h
  cases hx : x.toModel.unpack with
  | notANumber => rw [hx] at h; cases h
  | infinity s => cases s <;> rfl
  | zero s => cases s <;> rfl
  | finite s m e => cases s <;> rfl

def square (x : Float) : Float :=
  x * x

def splitWeights (strengths weights : List Float) : List Float × List Float :=
  let both := (strengths.zip weights).partition fun e => e.1 > 0.0
  (both.1.map Prod.snd, both.2.map Prod.snd)

namespace Criterion

def node (criterion : Criterion) (weights : List Float) : Float :=
  if weights.isEmpty then infinite
  else
    let m := mean weights
    match criterion with
    | gini => 1.0 - square m - square (1.0 - m)
    | mse => sum (weights.map fun w => square (w - m)) / count weights

def split (criterion : Criterion) (strengths weights : List Float) : Float :=
  let (matched, unmatched) := splitWeights strengths weights
  if matched.isEmpty || unmatched.isEmpty then infinite
  else
    let n := Float.ofNat (matched.length + unmatched.length)
    count matched / n * criterion.node matched + count unmatched / n * criterion.node unmatched

def name : Criterion → String
  | gini => "gini"
  | mse => "mse"

def ofName? (s : String) : Option Criterion :=
  [gini, mse].find? (·.name = s)

def parse (s : String) : Except String Criterion :=
  let lower := Text.lowercase s
  match ofName? lower with
  | some criterion => .ok criterion
  | none => .error s!"unknown criterion \"{lower}\", expected \"gini\" or \"mse\""

end Criterion

end RuleInduction
