import RuleInduction.Candidate
import RuleInduction.Criterion
import RuleInduction.LearnedClause
import RuleInduction.Random
import RuleInduction.SearchSpace
import RuleInduction.Selection

namespace RuleInduction

structure SearchLimits where
  maxLiterals : Option Nat
  maxPredicates : Option Nat
  minExamples : Nat
  criterion : Criterion
  strategy : Strategy
  recursive : Bool
  deriving Repr

structure Subject where
  view : View
  bindings : Bindings
  weight : Float

structure ClauseSearch where
  space : SearchSpace
  limits : SearchLimits
  head : List String
  names : FreshNames
  hints : Hints
  subjects : List Subject

structure SearchState where
  clause : Clause
  leaves : List Leaf
  working : List Subject
  impurity : Float
  body : Scope
  names : FreshNames

structure Scored where
  literal : Literal
  strengths : List Float
  impurity : Float

inductive Round where
  | stopped (reason : StopReason)
  | grown (state : SearchState)

def Store.hints (s : Store) : Hints :=
  s.relations.map fun _ rows => rows.length

def ownRows (target : Predicate) : Nat → List Fact → List (Option RowRef)
  | _, [] => []
  | next, e :: es =>
    if e.weight == 0.0 then none :: ownRows target next es
    else some ⟨target, next⟩ :: ownRows target (next + 1) es

namespace ClauseSearch

def trainingStore (store : Store) (limits : SearchLimits) (examples : List Fact) : Store :=
  if limits.recursive then
    store.merge (.compile (examples.filter fun e => !(e.weight == 0.0)))
  else store

def views (target : Predicate) (store : Store) (limits : SearchLimits) (examples : List Fact) :
    List View :=
  let training := trainingStore store limits examples
  if limits.recursive then
    (ownRows target (store.rows target).length examples).map fun
      | some row => training.viewWithout row
      | none => training.view
  else examples.map fun _ => training.view

def start (space : SearchSpace) (store : Store) (limits : SearchLimits) (examples : List Fact) :
    ClauseSearch :=
  let (head, names) := FreshNames.empty.take space.targetTypes.length
  let views := views space.target store limits examples
  { space, limits, head, names
    hints := (trainingStore store limits examples).hints
    subjects := List.zipWith (fun e view => ⟨view, .ofHead head e.arguments, e.weight⟩)
      examples views }

variable {G : Type} [RandomSource G]

def headScope (s : ClauseSearch) : Scope :=
  (s.space.targetTypes.zip s.head).foldl (fun scope e => scope.insert e.1 e.2) .empty

def predicates (s : ClauseSearch) : List Predicate :=
  s.space.bodyPredicates s.limits.recursive

def weights (subjects : List Subject) : List Float :=
  subjects.map Subject.weight

def initial (s : ClauseSearch) : SearchState where
  clause := []
  leaves := []
  working := s.subjects
  impurity := s.limits.criterion.node (weights s.subjects)
  body := .empty
  names := s.names

def prior (s : ClauseSearch) : Float :=
  mean (weights s.subjects)

def limitReached? (s : ClauseSearch) (state : SearchState) : Option StopReason :=
  if s.limits.maxLiterals.any (· ≤ state.clause.length) then some .maxLiterals
  else if state.working.length < s.limits.minExamples then some .tooFewExamples
  else none

def samplePredicates (s : ClauseSearch) (g : Option G) :
    Std.ExtTreeSet Predicate × Option G :=
  let (shuffled, g) := Random.shuffle s.predicates g
  (.ofList (match s.limits.maxPredicates with
    | some n => shuffled.take n
    | none => shuffled), g)

def candidates (s : ClauseSearch) (state : SearchState) (allowed : Std.ExtTreeSet Predicate) :
    Candidates :=
  .generate s.space.modes allowed ⟨s.space.constants, s.headScope, state.body⟩ state.names

def lastStrength (c : Clause) (e : Subject) : Float :=
  (binaryStrengths e.view e.bindings c).getLastD 0.0

def score (s : ClauseSearch) (state : SearchState) (l : Literal) : Scored :=
  let strengths := state.working.map (lastStrength (state.clause ++ [l]))
  ⟨l, strengths, s.limits.criterion.split strengths (weights state.working)⟩

def bindBody (s : ClauseSearch) (l : Literal) (body : Scope) : Scope :=
  let places := l.arguments.zip (s.space.signatures.types l.predicate)
  places.foldl
    (fun body e => match e.1.named? with
      | some x => if s.headScope.contains x then body else body.insert e.2 x
      | none => body) body

def accept (s : ClauseSearch) (state : SearchState) (c : Scored) : SearchState where
  clause := state.clause ++ [c.literal]
  leaves :=
    let (matched, unmatched) := splitWeights c.strengths (weights state.working)
    state.leaves ++ [⟨mean matched, mean unmatched⟩]
  working := ((state.working.zip c.strengths).filter fun e => e.2 > 0.0).map Prod.fst
  impurity := c.impurity
  body := s.bindBody c.literal state.body
  names := c.literal.vars.foldl FreshNames.reserve state.names

def round (s : ClauseSearch) (state : SearchState) (g : Option G) : Round × Option G :=
  let (allowed, g) := s.samplePredicates g
  let candidates := s.candidates state allowed
  if candidates.isEmpty then (.stopped .exhausted, g)
  else
    let (ordered, g) := Random.shuffle (candidates.ordered s.hints) g
    let scored := ordered.map (s.score state)
    let (selection, g) := s.limits.strategy.select (scored.map Scored.impurity) g
    match selection with
    | .declined => (.stopped .noViableCandidate, g)
    | .unbounded => (.stopped .unboundedWheel, g)
    | .chosen i =>
      match scored[i]? with
      | some c =>
        if c.impurity ≥ state.impurity then (.stopped .noImprovement, g)
        else (.grown (s.accept state c), g)
      | none => (.stopped .noViableCandidate, g)

def allEqual : List Float → Bool
  | x :: y :: rest => x == y && allEqual (y :: rest)
  | _ => true

def endReached? (s : ClauseSearch) (state : SearchState) : Option StopReason :=
  match s.limitReached? state with
  | some reason => some reason
  | none => if allEqual (weights state.working) then some .pure else none

theorem grown_of_round {s : ClauseSearch} {state next : SearchState} {g g' : Option G}
    (h : s.round state g = (.grown next, g')) :
    ∃ l, ¬ (s.score state l).impurity ≥ state.impurity ∧
      next = s.accept state (s.score state l) := by
  simp only [round] at h
  split at h
  · cases h
  · split at h
    · cases h
    · cases h
    · split at h
      · next c hc =>
          split at h
          · cases h
          · next hi =>
              have hc := List.mem_of_getElem? hc
              simp only [List.mem_map] at hc
              obtain ⟨l, _, rfl⟩ := hc
              cases h
              exact ⟨l, hi, rfl⟩
      · cases h

/-- Falls with each literal: twice the examples, and one while the impurity is not a number. -/
def remaining (state : SearchState) : Nat :=
  2 * state.working.length + if state.impurity.isNaN then 1 else 0

theorem length_filter_zip {α : Type} (xs : List α) (f : α → Float) (weight : α → Float)
    (h : ((xs.zip (xs.map f)).filter fun e => e.2 > 0.0).length = xs.length) :
    (splitWeights (xs.map f) (xs.map weight)).2 = [] := by
  induction xs with
  | nil => rfl
  | cons x xs ih =>
      have hle := List.length_filter_le (fun e => decide (e.2 > 0.0)) (xs.zip (xs.map f))
      simp only [List.length_zip, List.length_map, Nat.min_self] at hle
      simp only [List.map_cons, List.zip_cons_cons, List.filter_cons] at h
      split at h
      · next hx =>
          simp only [List.length_cons, Nat.add_right_cancel_iff] at h
          have := ih h
          simp only [splitWeights, List.partition_eq_filter_filter, List.map_cons,
            List.zip_cons_cons, List.map_eq_nil_iff] at this ⊢
          simp only [List.filter_cons, Function.comp_apply, hx, Bool.not_true,
            Bool.false_eq_true, if_false]
          exact this
      · simp only [List.length_cons] at h
        omega

theorem split_eq_infinite (criterion : Criterion) (strengths weights : List Float)
    (h : (splitWeights strengths weights).2 = []) :
    criterion.split strengths weights = infinite := by
  simp [Criterion.split, h]

theorem impurity_of_all_matched (s : ClauseSearch) (state : SearchState) (l : Literal)
    (h : (s.accept state (s.score state l)).working.length = state.working.length) :
    (s.score state l).impurity = infinite := by
  simp only [accept, List.length_map] at h
  exact split_eq_infinite _ _ _ (length_filter_zip state.working _ Subject.weight h)

theorem length_working_accept_le (s : ClauseSearch) (state : SearchState) (c : Scored) :
    (s.accept state c).working.length ≤ state.working.length := by
  have := List.length_filter_le (fun e => decide (e.2 > 0.0)) (state.working.zip c.strengths)
  simp only [accept, List.length_map, List.length_zip] at this ⊢
  omega

theorem isNaN_of_not_infinite_le {x : Float} (h : ¬ infinite ≥ x) : x.isNaN = true := by
  cases hx : x.isNaN with
  | true => rfl
  | false => exact absurd (le_infinite hx) h

theorem remaining_lt {s : ClauseSearch} {state next : SearchState} {g g' : Option G}
    (h : s.round state g = (.grown next, g')) : remaining next < remaining state := by
  obtain ⟨l, hi, rfl⟩ := grown_of_round h
  have hle := length_working_accept_le s state (s.score state l)
  have himp : (s.accept state (s.score state l)).impurity = (s.score state l).impurity := rfl
  have hall := impurity_of_all_matched s state l
  generalize s.accept state (s.score state l) = next at hle himp hall
  simp only [remaining, himp]
  by_cases heq : next.working.length = state.working.length
  · rw [hall heq] at hi ⊢
    rw [heq, isNaN_of_not_infinite_le hi, isNaN_infinite]
    simp
  · split <;> split <;> omega

def run (s : ClauseSearch) (state : SearchState) (g : Option G) :
    SearchState × StopReason × Option G :=
  match _h : s.round state g with
  | (.stopped reason, g) => (state, reason, g)
  | (.grown next, g) =>
    match s.endReached? next with
    | some reason => (next, reason, g)
    | none => s.run next g
termination_by remaining state
decreasing_by exact remaining_lt _h

/-- The clause that is found, and the source that is left; none if a draw had no answer, so that the
search never comes to an end. -/
def learn (s : ClauseSearch) (g : G) : LearnedClause × Option G :=
  let (state, stop, g) :=
    match s.limitReached? s.initial with
    | some reason => (s.initial, reason, some g)
    | none => s.run s.initial (some g)
  (⟨s.head, state.clause, state.leaves, s.prior, stop⟩, g)

end ClauseSearch

end RuleInduction
