import Std.Data.ExtTreeMap
import Std.Data.ExtTreeSet
import RuleInduction.Literal
import RuleInduction.Store

namespace RuleInduction

abbrev Values := Std.ExtTreeSet String

abbrev Bindings := Std.ExtTreeMap String Values

namespace Bindings

def bind (b : Bindings) (x : String) (values : Values) : Bindings :=
  Std.ExtTreeMap.insert b x values

def get? (b : Bindings) (x : String) : Option Values :=
  b[x]?

def ofList (entries : List (String × Values)) : Bindings :=
  entries.foldl (fun b e => b.bind e.1 e.2) ∅

def ofHead (head arguments : List String) : Bindings :=
  ofList ((head.zip arguments).map fun e => (e.1, .ofList [e.2]))

theorem get?_bind (b : Bindings) (x y : String) (values : Values) :
    (b.bind x values).get? y = if x = y then some values else b.get? y := by
  simp only [get?, bind, Std.ExtTreeMap.getElem?_insert, Std.LawfulEqOrd.compare_eq_iff_eq]

end Bindings

inductive Constraint where
  | free
  | exactly (value : String)
  | oneOf (values : Values)

namespace Constraint

def admits : Constraint → Option String → Bool
  | free, _ => true
  | exactly v, value? => value? == some v
  | oneOf vs, value? => value?.any vs.contains

def admitsAll : List Constraint → List String → Bool
  | [], _ => true
  | c :: cs, values => c.admits values.head? && admitsAll cs values.tail

end Constraint

def Term.constraint (b : Bindings) : Term → Constraint
  | .const v => .exactly v
  | .var x =>
    if x = anonymousName then .free
    else
      match b.get? x with
      | some values => .oneOf values
      | none => .free

namespace Literal

def admits (l : Literal) (b : Bindings) (row : Row) : Bool :=
  Constraint.admitsAll (l.arguments.map (Term.constraint b)) row.values

def filterRows (l : Literal) (b : Bindings) (rows : List Row) : List Row :=
  rows.filter (l.admits b)

def column (rows : List Row) (place : Nat) : Values :=
  .ofList (rows.filterMap fun row => row.values[place]?)

/-- Binds each variable to its column; of a variable that occurs twice the last column stays. -/
def rebind (l : Literal) (rows : List Row) (b : Bindings) : Bindings :=
  l.arguments.zipIdx.foldl
    (fun b t => match t.1.named? with
      | some x => b.bind x (column rows t.2)
      | none => b) b

end Literal

structure Pass where
  strengths : List Float
  bindings : Bindings

def pass (score : List Row → Float) (v : View) : Clause → Bindings → Pass
  | [], b => ⟨[], b⟩
  | l :: c, b =>
    match l.filterRows b (v.rows l.predicate) with
    | [] => ⟨List.replicate (c.length + 1) 0.0, b⟩
    | row :: rows =>
      let rest := pass score v c (l.rebind (row :: rows) b)
      ⟨score (row :: rows) :: rest.strengths, rest.bindings⟩

def matched (_rows : List Row) : Float :=
  1.0

def meanWeight (rows : List Row) : Float :=
  mean (rows.map Row.weight)

def binaryStrengths (v : View) (b : Bindings) (c : Clause) : List Float :=
  (pass matched v c b).strengths

/-- The mean weight of the rows of each literal, in a second pass that starts from the bindings at
the end of the first. -/
def weightedStrengths (v : View) (b : Bindings) (c : Clause) : List Float :=
  (pass meanWeight v c (pass matched v c b).bindings).strengths

theorem length_strengths_pass (score : List Row → Float) (v : View) (c : Clause) (b : Bindings) :
    (pass score v c b).strengths.length = c.length := by
  induction c generalizing b with
  | nil => rfl
  | cons l c ih =>
      simp only [pass]
      split
      · simp
      · simp [ih]

end RuleInduction
