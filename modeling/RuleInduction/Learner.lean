import RuleInduction.Random.Generator
import RuleInduction.Random.Sample
import RuleInduction.Settings

namespace RuleInduction

inductive Task where
  | classification
  | regression
  deriving DecidableEq, Repr

namespace Task

def criterion : Task → Criterion
  | classification => .gini
  | regression => .mse

def truth : Task → Float → Float
  | classification, weight => if weight > 0.0 then 1.0 else 0.0
  | regression, weight => weight

end Task

structure Rules where
  target : Predicate
  arity : Nat
  clauses : List LearnedClause
  deriving Repr

namespace Rules

def score (rules : Rules) (v : View) (f : Fact) : Float :=
  sum (rules.clauses.map fun c => c.leafValue (c.binary v f)) /
    Float.ofNat (max rules.clauses.length 1)

def features (rules : Rules) (v : View) (f : Fact) : List Float :=
  rules.clauses.flatMap fun c => c.weighted v f

def leafCounts (rules : Rules) : List Nat :=
  rules.clauses.map fun c => c.leaves.length

end Rules

def checkExamples (target : Predicate) (arity : Nat) : List Fact → Except SetupError Unit
  | [] => .ok ()
  | e :: es =>
    if e.predicate ≠ target then .error (.foreignExample e.render target)
    else if e.arity ≠ arity then .error (.exampleArity e.render arity e.arity)
    else checkExamples target arity es

structure Learner where
  task : Task
  modes : List Mode
  target : String
  settings : Settings
  rules : Option Rules

structure Problem where
  space : SearchSpace
  store : Store
  settings : ResolvedSettings
  examples : List Fact

namespace Problem

variable {G : Type} [RandomSource G]

def learnClause (p : Problem) (g : G) : Option (LearnedClause × G) := do
  let (sample, g) ← Random.answered (Random.subsequence p.examples p.settings.sampleSize g)
  Random.answered ((ClauseSearch.start p.space p.store p.settings.limits sample).learn g)

/-- There are no clauses once a search finds a wheel without a finite total. -/
def learnClauses (p : Problem) : Nat → G → Option (Option (List LearnedClause) × G)
  | 0, g => some (some [], g)
  | n + 1, g => do
    let (c, g) ← p.learnClause g
    if c.stop = .unboundedWheel then return (none, g)
    let (cs, g) ← p.learnClauses n g
    return (cs.map (c :: ·), g)

end Problem

namespace Learner

variable {G : Type} [RandomSource G]

def new (task : Task) (modes : List Mode) (target : String) (settings : Settings) : Learner :=
  ⟨task, modes, target, settings, none⟩

def problem (l : Learner) (examples background : List Fact) : Except SetupError Problem := do
  let space ← SearchSpace.ofModes l.target l.modes background
  if examples.isEmpty then throw .noExamples
  checkExamples space.target space.targetTypes.length examples
  let settings ← l.settings.resolve l.task.criterion examples.length
    (space.bodyPredicates l.settings.recursive).length
  return {
    space, settings
    store := .compile background
    examples := examples.map fun e => e.withWeight (l.task.truth e.weight) }

inductive Outcome where
  | learned (rules : Rules)
  | refused (e : Error)
  /-- there is no room for the clauses, or no point of a wheel could be drawn -/
  | brokenOff
  /-- a draw has no answer, so that the fit does not come to an end -/
  | unanswered
  deriving Repr

/-- How many clauses of 88 bytes a vector has room for. -/
def clauseCapacity : Nat :=
  0x7FFFFFFFFFFFFFFF / 88

def fit (l : Learner) (examples background : List Fact) (g : G) : Outcome × Learner × Option G :=
  match l.problem examples background with
  | .error e => (.refused (.setup e), l, some g)
  | .ok p =>
    if clauseCapacity < p.settings.clauses then (.brokenOff, l, some g)
    else
      match p.learnClauses p.settings.clauses g with
      | none => (.unanswered, l, none)
      | some (none, g) => (.brokenOff, l, some g)
      | some (some clauses, g) =>
        let rules : Rules := ⟨p.space.target, p.space.targetTypes.length, clauses⟩
        (.learned rules, { l with rules := some rules }, some g)

def fitSeeded (l : Learner) (examples background : List Fact) (fallback : UInt64) :
    Outcome × Learner :=
  let (outcome, l, _) := l.fit examples background (ChaCha.ofSeed (l.settings.seed.getD fallback))
  (outcome, l)

def answers {α : Type} (l : Learner) (queries background : List Fact)
    (ask : Rules → View → Fact → α) : Except Error (List α) :=
  match l.rules with
  | none => .error .notFitted
  | some rules =>
    match checkExamples rules.target rules.arity queries with
    | .error e => .error (.setup e)
    | .ok () => .ok (queries.map (ask rules (Store.compile background).view))

def scores (l : Learner) (queries background : List Fact) : Except Error (List Float) :=
  l.answers queries background Rules.score

def predict (l : Learner) (queries background : List Fact) : Except Error (List Float) := do
  let scores ← l.scores queries background
  match l.task with
  | .regression => return scores
  | .classification => return scores.map fun p => if p ≥ 0.5 then 1.0 else 0.0

def features (l : Learner) (queries background : List Fact) : Except Error (List (List Float)) :=
  l.answers queries background Rules.features

end Learner

end RuleInduction
