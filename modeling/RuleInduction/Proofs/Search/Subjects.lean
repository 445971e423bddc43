import Mathlib.Data.List.Basic
import RuleInduction.ClauseSearch

namespace RuleInduction.ClauseSearch

section Start

variable (space : SearchSpace) (store : Store) (limits : SearchLimits) (examples : List Fact)

theorem length_ownRows (target : Predicate) (next : Nat) :
    (ownRows target next examples).length = examples.length := by
  induction examples generalizing next with
  | nil => rfl
  | cons e es ih =>
      simp only [ownRows]
      split <;> simp [ih]

theorem length_views (target : Predicate) :
    (views target store limits examples).length = examples.length := by
  simp only [views]
  split
  · rw [List.length_map, length_ownRows]
  · rw [List.length_map]

theorem weights_start :
    weights (start space store limits examples).subjects = examples.map Fact.weight := by
  have hlen := length_views store limits examples space.target
  simp only [start, weights, List.map_zipWith]
  generalize views space.target store limits examples = vs at hlen
  induction examples generalizing vs with
  | nil => rfl
  | cons e es ih =>
      cases vs with
      | nil => cases hlen
      | cons v vs =>
          rw [List.zipWith_cons_cons, List.map_cons, ih vs (Nat.succ.inj hlen)]

theorem prior_learn {G : Type} [RandomSource G] (g : G) :
    ((start space store limits examples).learn g).1.prior = mean (examples.map Fact.weight) :=
  congrArg mean (weights_start space store limits examples)

def headNames (space : SearchSpace) : List String :=
  (FreshNames.empty.take space.targetTypes.length).1

theorem subjects_start (h : limits.recursive = false) :
    (start space store limits examples).subjects =
      examples.map fun e => ⟨store.view, .ofHead (headNames space) e.arguments, e.weight⟩ := by
  have hviews : views space.target store limits examples = examples.map fun _ => store.view := by
    simp [views, trainingStore, h]
  simp only [start, hviews, List.zipWith_map_right, List.zipWith_self]
  rfl

end Start

variable {s : ClauseSearch} {state : SearchState} {l : Literal}

def matchedSide (state : SearchState) (c : Clause) : List Subject :=
  state.working.filter fun e => lastStrength c e > 0.0

def unmatchedSide (state : SearchState) (c : Clause) : List Subject :=
  state.working.filter fun e => !decide (lastStrength c e > 0.0)

theorem length_working_eq (state : SearchState) (c : Clause) :
    state.working.length = (matchedSide state c).length + (unmatchedSide state c).length :=
  List.length_eq_length_filter_add _

theorem filter_zip_map {α : Type} (xs : List α) (f : α → Float) :
    ((xs.zip (xs.map f)).filter fun e => e.2 > 0.0).map Prod.fst = xs.filter (f · > 0.0) := by
  rw [← List.map_prod_left_eq_zip, List.filter_map, List.map_map]
  exact List.map_id _

theorem splitWeights_map {α : Type} (xs : List α) (f weight : α → Float) :
    splitWeights (xs.map f) (xs.map weight) =
      ((xs.filter (f · > 0.0)).map weight,
        (xs.filter fun x => !decide (f x > 0.0)).map weight) := by
  simp only [splitWeights, List.zip_map', List.partition_eq_filter_filter, List.filter_map,
    List.map_map]
  rfl

theorem working_accept :
    (s.accept state (s.score state l)).working = matchedSide state (state.clause ++ [l]) :=
  filter_zip_map state.working (lastStrength (state.clause ++ [l]))

theorem clause_accept : (s.accept state (s.score state l)).clause = state.clause ++ [l] := rfl

theorem splitWeights_score : splitWeights (s.score state l).strengths (weights state.working) =
    (weights (matchedSide state (state.clause ++ [l])),
      weights (unmatchedSide state (state.clause ++ [l]))) :=
  splitWeights_map state.working _ Subject.weight

theorem leaves_accept : (s.accept state (s.score state l)).leaves =
    state.leaves ++ [⟨mean (weights (matchedSide state (state.clause ++ [l]))),
      mean (weights (unmatchedSide state (state.clause ++ [l])))⟩] := by
  simp only [accept, splitWeights_score]

theorem sides_ne_nil (h : (s.score state l).impurity ≠ infinite) :
    matchedSide state (state.clause ++ [l]) ≠ [] ∧
      unmatchedSide state (state.clause ++ [l]) ≠ [] := by
  have himp : (s.score state l).impurity = s.limits.criterion.split (s.score state l).strengths
      (weights state.working) := rfl
  rw [himp, Criterion.split, splitWeights_score] at h
  refine ⟨fun hm => h ?_, fun hu => h ?_⟩
  · simp [hm, weights]
  · simp [hu, weights]

end RuleInduction.ClauseSearch
