import Mathlib.Data.List.Chain
import RuleInduction.ClauseSearch
import RuleInduction.Proofs.Candidate.Order
import RuleInduction.Proofs.Selection

namespace RuleInduction.ClauseSearch

variable {G : Type} [RandomSource G] {s : ClauseSearch}

structure Accepts (s : ClauseSearch) (state : SearchState) (l : Literal) : Prop where
  candidate : ∃ allowed : Std.ExtTreeSet Predicate,
    (∀ p ∈ allowed, p ∈ s.predicates) ∧ l ∈ s.candidates state allowed
  number : (s.score state l).impurity.isNaN = false
  purer : ¬ (s.score state l).impurity ≥ state.impurity

theorem mem_of_mem_samplePredicates {g : Option G} {p : Predicate}
    (h : p ∈ (s.samplePredicates g).1) : p ∈ s.predicates := by
  have hperm := Random.shuffle_perm s.predicates g
  simp only [samplePredicates, Std.ExtTreeSet.mem_ofList, List.contains_iff_mem] at h
  split at h
  · exact hperm.mem_iff.1 (List.mem_of_mem_take h)
  · exact hperm.mem_iff.1 h

theorem samplePredicates_eq_of_le
    (hall : ∀ n, s.limits.maxPredicates = some n → s.predicates.length ≤ n) (g : Option G) :
    (s.samplePredicates g).1 = .ofList s.predicates := by
  have hperm := Random.shuffle_perm s.predicates g
  refine Std.ExtTreeSet.ext_mem fun p => ?_
  simp only [samplePredicates, Std.ExtTreeSet.mem_ofList, List.contains_iff_mem]
  cases hmax : s.limits.maxPredicates with
  | none => exact hperm.mem_iff
  | some n =>
      dsimp only
      rw [List.take_of_length_le (hperm.length_eq ▸ hall n hmax)]
      exact hperm.mem_iff

def considered (s : ClauseSearch) (state : SearchState) (g : Option G) :
    List Literal × Option G :=
  let allowed := s.samplePredicates g
  Random.shuffle ((s.candidates state allowed.1).ordered s.hints) allowed.2

theorem mem_considered {state : SearchState} {g : Option G} {l : Literal} :
    l ∈ (s.considered state g).1 ↔ l ∈ s.candidates state (s.samplePredicates g).1 :=
  (Random.shuffle_perm _ _).mem_iff.trans Candidates.mem_ordered

def outcome (s : ClauseSearch) (state : SearchState) (scored : List Scored) : Selection → Round
  | .declined => .stopped .noViableCandidate
  | .unbounded => .stopped .unboundedWheel
  | .chosen i =>
    match scored[i]? with
    | some c =>
      if c.impurity ≥ state.impurity then .stopped .noImprovement else .grown (s.accept state c)
    | none => .stopped .noViableCandidate

theorem round_eq (s : ClauseSearch) (state : SearchState) (g : Option G) :
    s.round state g =
      if (s.candidates state (s.samplePredicates g).1).isEmpty then
        (.stopped .exhausted, (s.samplePredicates g).2)
      else
        let scored := (s.considered state g).1.map (s.score state)
        let selected := s.limits.strategy.select (scored.map Scored.impurity)
          (s.considered state g).2
        (s.outcome state scored selected.1, selected.2) := by
  simp only [round, considered]
  split
  · rfl
  · generalize (Random.shuffle (G := G) _ _).1.map (s.score state) = scored
    generalize s.limits.strategy.select (G := Option G) _ _ = selected
    obtain ⟨selection, g'⟩ := selected
    cases selection with
    | declined => rfl
    | unbounded => rfl
    | chosen i =>
        simp only [outcome]
        cases scored[i]? with
        | none => rfl
        | some c =>
            by_cases hge : c.impurity ≥ state.impurity
            · simp only [if_pos hge]
            · simp only [if_neg hge]

theorem exhausted_iff_isEmpty {state : SearchState} {g : Option G} :
    (s.round state g).1 = .stopped .exhausted ↔
      (s.candidates state (s.samplePredicates g).1).isEmpty = true := by
  rw [round_eq]
  constructor
  · intro hround
    by_contra hne
    simp only [if_neg hne, outcome] at hround
    split at hround
    · cases hround
    · cases hround
    · split at hround
      · split at hround <;> cases hround
      · cases hround
  · intro hempty
    rw [if_pos hempty]

theorem grown_of_outcome {state next : SearchState} {scored : List Scored} {selection : Selection}
    (h : s.outcome state scored selection = .grown next) : ∃ i c, selection = .chosen i ∧
      scored[i]? = some c ∧ ¬ c.impurity ≥ state.impurity ∧ next = s.accept state c := by
  cases selection with
  | declined => cases h
  | unbounded => cases h
  | chosen i =>
      simp only [outcome] at h
      split at h
      · next c hc =>
          split at h
          · cases h
          · next himp =>
              cases h
              exact ⟨i, c, rfl, hc, himp, rfl⟩
      · cases h

theorem accepts_of_round {state next : SearchState} {g g' : Option G}
    (h : s.round state g = (.grown next, g')) :
    ∃ l, s.Accepts state l ∧ next = s.accept state (s.score state l) := by
  rw [round_eq] at h
  split at h
  · cases h
  · obtain ⟨i, c, hi, hc, himp, rfl⟩ := grown_of_outcome (congrArg Prod.fst h)
    obtain ⟨x, hx, hnum⟩ := Strategy.isNaN_of_chosen hi
    rw [List.getElem?_map, hc] at hx
    cases hx
    obtain ⟨l, hl, rfl⟩ := List.mem_map.1 (List.mem_of_getElem? hc)
    exact ⟨l, ⟨⟨_, fun _ => mem_of_mem_samplePredicates, mem_considered.1 hl⟩, hnum, himp⟩, rfl⟩

def Step (s : ClauseSearch) (state next : SearchState) : Prop :=
  ∃ l, s.Accepts state l ∧ next = s.accept state (s.score state l)

theorem step_of_grown {state next : SearchState} {g : Option G}
    (h : (s.round state g).1 = .grown next) : s.Step state next :=
  accepts_of_round (g := g) (Prod.ext h rfl)

inductive Rounds (s : ClauseSearch) :
    SearchState → Option G → List SearchState → StopReason → Option G → Prop
  | stopped {state : SearchState} {g g' : Option G} {reason : StopReason}
      (h : s.round state g = (.stopped reason, g')) : Rounds s state g [] reason g'
  | ended {state next : SearchState} {g g' : Option G} {reason : StopReason}
      (h : s.round state g = (.grown next, g')) (he : s.endReached? next = some reason) :
      Rounds s state g [next] reason g'
  | grown {state next : SearchState} {g g' g'' : Option G} {states : List SearchState}
      {reason : StopReason} (h : s.round state g = (.grown next, g'))
      (he : s.endReached? next = none) (rest : Rounds s next g' states reason g'') :
      Rounds s state g (next :: states) reason g''

inductive Run (s : ClauseSearch) :
    Option G → List SearchState → StopReason → Option G → Prop
  | limited {g : Option G} {reason : StopReason} (h : s.limitReached? s.initial = some reason) :
      Run s g [] reason g
  | searched {g g' : Option G} {states : List SearchState} {reason : StopReason}
      (h : s.limitReached? s.initial = none) (rounds : Rounds s s.initial g states reason g') :
      Run s g states reason g'

theorem run_of_stopped {state : SearchState} {g g' : Option G} {reason : StopReason}
    (h : s.round state g = (.stopped reason, g')) : s.run state g = (state, reason, g') := by
  rw [run]
  split
  · next hround =>
      cases h.symm.trans hround
      rfl
  · next hround => cases h.symm.trans hround

theorem run_of_grown {state next : SearchState} {g g' : Option G}
    (h : s.round state g = (.grown next, g')) : s.run state g =
      match s.endReached? next with
      | some reason => (next, reason, g')
      | none => s.run next g' := by
  rw [run]
  split
  · next hround => cases h.symm.trans hround
  · next hround =>
      cases h.symm.trans hround
      rfl

theorem exists_rounds (state : SearchState) (g : Option G) : ∃ states reason g',
    Rounds s state g states reason g' ∧ s.run state g = (states.getLastD state, reason, g') := by
  fun_induction s.run state g with
  | case1 state g reason g' h => exact ⟨[], reason, g', .stopped h, rfl⟩
  | case2 state g next g' h reason he => exact ⟨[next], reason, g', .ended h he, rfl⟩
  | case3 state g next g' h he ih =>
      obtain ⟨states, reason, g'', hrounds, heq⟩ := ih
      refine ⟨next :: states, reason, g'', .grown h he hrounds, ?_⟩
      rw [heq, List.getLastD_cons]

theorem exists_run (s : ClauseSearch) (g : G) : ∃ states reason g', Run s (some g) states reason g' ∧
    s.learn g = (⟨s.head, (states.getLastD s.initial).clause,
      (states.getLastD s.initial).leaves, s.prior, reason⟩, g') := by
  simp only [learn]
  cases h : s.limitReached? s.initial with
  | some reason => exact ⟨[], reason, some g, .limited h, rfl⟩
  | none =>
      obtain ⟨states, reason, g', hrounds, heq⟩ := exists_rounds s.initial (some g)
      refine ⟨states, reason, g', .searched h hrounds, ?_⟩
      rw [heq]

theorem Rounds.isChain {state : SearchState} {g g' : Option G} {states : List SearchState}
    {reason : StopReason} (h : Rounds s state g states reason g') :
    List.IsChain s.Step (state :: states) := by
  induction h with
  | stopped h => exact .singleton _
  | ended h he => exact .cons_cons (accepts_of_round h) (.singleton _)
  | grown h he _ ih => exact .cons_cons (accepts_of_round h) ih

theorem Run.isChain {g g' : Option G} {states : List SearchState} {reason : StopReason}
    (h : Run s g states reason g') : List.IsChain s.Step (s.initial :: states) := by
  cases h with
  | limited h => exact .singleton _
  | searched h rounds => exact rounds.isChain

theorem invariant_of_isChain {P : SearchState → Prop} {state : SearchState}
    {states : List SearchState} (hstep : ∀ a b, P a → s.Step a b → P b)
    (h : List.IsChain s.Step (state :: states)) (hp : P state) : P (states.getLastD state) := by
  induction states generalizing state with
  | nil => exact hp
  | cons next states ih =>
      rw [List.isChain_cons_cons] at h
      rw [List.getLastD_cons]
      exact ih h.2 (hstep _ _ hp h.1)

theorem learn_invariant {P : SearchState → Prop} (hinit : P s.initial)
    (hstep : ∀ a b, P a → s.Step a b → P b) (g : G) : ∃ state, P state ∧
      (s.learn g).1.clause = state.clause ∧ (s.learn g).1.leaves = state.leaves := by
  obtain ⟨states, reason, g', hrun, heq⟩ := s.exists_run g
  exact ⟨_, invariant_of_isChain hstep hrun.isChain hinit, by rw [heq], by rw [heq]⟩

def ending? (s : ClauseSearch) (state : SearchState) : Option StopReason :=
  if state.clause = [] then s.limitReached? state else s.endReached? state

theorem limitReached?_of_ending? {state : SearchState} (h : s.ending? state = none) :
    s.limitReached? state = none := by
  simp only [ending?, endReached?] at h
  split at h
  · exact h
  · split at h
    · cases h
    · next hlimit => exact hlimit

theorem endReached?_of_ending? {state : SearchState} {reason : StopReason}
    (h : s.ending? state = some reason) : s.endReached? state = some reason := by
  rw [ending?] at h
  split at h
  · simp only [endReached?, h]
  · exact h

theorem ending?_of_round {state next : SearchState} {g g' : Option G}
    (h : s.round state g = (.grown next, g')) : s.ending? next = s.endReached? next := by
  obtain ⟨l, _, rfl⟩ := accepts_of_round h
  exact if_neg (List.append_ne_nil_of_right_ne_nil _ (List.cons_ne_nil l []))

-- The rounds end where one of them stops the search, or where the state that it leads to is at an
-- end.
theorem Rounds.invariant {P : SearchState → Prop}
    (hround : ∀ state next (g : Option G), P state → s.ending? state = none →
      (s.round state g).1 = .grown next → P next)
    {state : SearchState} {g g' : Option G} {states : List SearchState} {reason : StopReason}
    (h : Rounds s state g states reason g') (hp : P state) (hopen : s.ending? state = none) :
    P (states.getLastD state) ∧
      ((s.ending? (states.getLastD state) = none ∧
          ∃ g : Option G, (s.round (states.getLastD state) g).1 = .stopped reason) ∨
        s.ending? (states.getLastD state) = some reason) := by
  induction h with
  | stopped h => exact ⟨hp, Or.inl ⟨hopen, _, congrArg Prod.fst h⟩⟩
  | ended h he =>
      exact ⟨hround _ _ _ hp hopen (congrArg Prod.fst h), Or.inr ((ending?_of_round h).trans he)⟩
  | grown h he _ ih =>
      rw [List.getLastD_cons]
      exact ih (hround _ _ _ hp hopen (congrArg Prod.fst h)) ((ending?_of_round h).trans he)

theorem learn_stops {P : SearchState → Prop} (hinit : P s.initial)
    (hround : ∀ state next (g : Option G), P state → s.ending? state = none →
      (s.round state g).1 = .grown next → P next) (g : G) :
    ∃ state, P state ∧ (s.learn g).1.clause = state.clause ∧
      ((s.ending? state = none ∧
          ∃ g' : Option G, (s.round state g').1 = .stopped (s.learn g).1.stop) ∨
        s.ending? state = some (s.learn g).1.stop) := by
  obtain ⟨states, reason, g', hrun, heq⟩ := s.exists_run g
  rw [heq]
  cases hrun with
  | limited h => exact ⟨s.initial, hinit, rfl, Or.inr h⟩
  | searched h rounds =>
      obtain ⟨hp, hend⟩ := rounds.invariant hround hinit h
      exact ⟨_, hp, rfl, hend⟩

theorem learn_ends {P : SearchState → Prop} (hinit : P s.initial)
    (hround : ∀ state next (g : Option G), P state → (s.round state g).1 = .grown next → P next)
    (g : G) :
    ∃ state, P state ∧ (s.learn g).1.clause = state.clause ∧
      ((∃ g' : Option G, (s.round state g').1 = .stopped (s.learn g).1.stop) ∨
        s.endReached? state = some (s.learn g).1.stop) := by
  obtain ⟨state, hp, hclause, hend⟩ :=
    learn_stops hinit (fun state next g h _ => hround state next g h) g
  exact ⟨state, hp, hclause, hend.imp And.right endReached?_of_ending?⟩

end RuleInduction.ClauseSearch
