import RuleInduction.Proofs.Random.SplitMix
import RuleInduction.Proofs.Search.Run
import RuleInduction.Proofs.Search.Subjects

namespace RuleInduction.ClauseSearch

variable {s : ClauseSearch} {state next : SearchState}

structure Splits (state next : SearchState) : Prop where
  literal : ∃ l, next.clause = state.clause ++ [l]
  working : next.working = matchedSide state next.clause
  matched : matchedSide state next.clause ≠ []
  unmatched : unmatchedSide state next.clause ≠ []
  shrinks : next.working.length < state.working.length
  purer : next.impurity < state.impurity

theorem length_working_le_of_step (h : s.Step state next) :
    next.working.length ≤ state.working.length := by
  obtain ⟨l, _, rfl⟩ := h
  exact length_working_accept_le s state _

theorem isNaN_of_step (h : s.Step state next) : next.impurity.isNaN = false := by
  obtain ⟨l, hl, rfl⟩ := h
  exact hl.number

theorem length_clause_of_step (h : s.Step state next) :
    next.clause.length = state.clause.length + 1 := by
  obtain ⟨l, _, rfl⟩ := h
  exact List.length_append

theorem splits_of_step (h : s.Step state next) (hn : state.impurity.isNaN = false) :
    Splits state next := by
  obtain ⟨l, hl, rfl⟩ := h
  have hlt := FloatOrder.lt_of_not_ge hl.number hn hl.purer
  have hne : (s.score state l).impurity ≠ infinite := by
    intro he
    rw [he] at hlt
    exact FloatOrder.not_infinite_lt _ hlt
  obtain ⟨hm, hu⟩ := sides_ne_nil hne
  have hlen := length_working_eq state (state.clause ++ [l])
  have hpos := List.length_pos_of_ne_nil hu
  refine ⟨⟨l, rfl⟩, working_accept, hm, hu, ?_, hlt⟩
  rw [working_accept]
  omega

theorem length_clause_of_isChain {states : List SearchState}
    (h : List.IsChain s.Step (state :: states)) :
    (states.getLastD state).clause.length = state.clause.length + states.length := by
  induction states generalizing state with
  | nil => rfl
  | cons next states ih =>
      rw [List.isChain_cons_cons] at h
      rw [List.getLastD_cons, ih h.2, length_clause_of_step h.1, List.length_cons]
      omega

theorem isChain_splits {states : List SearchState} (h : List.IsChain s.Step (state :: states))
    (hn : state.impurity.isNaN = false) : List.IsChain Splits (state :: states) := by
  induction states generalizing state with
  | nil => exact .singleton _
  | cons next states ih =>
      rw [List.isChain_cons_cons] at h
      exact .cons_cons (splits_of_step h.1 hn) (ih h.2 (isNaN_of_step h.1))

theorem length_le_of_splits {states : List SearchState}
    (h : List.IsChain Splits (state :: states)) : states.length ≤ state.working.length - 1 := by
  induction states generalizing state with
  | nil => exact Nat.zero_le _
  | cons next states ih =>
      rw [List.isChain_cons_cons] at h
      have hshrinks := h.1.shrinks
      have hpos : 0 < next.working.length :=
        List.length_pos_of_ne_nil (h.1.working ▸ h.1.matched)
      have := ih h.2
      rw [List.length_cons]
      omega

/-- After the first literal the impurity is a number, so only that one may fail to split. -/
theorem length_le_of_steps {states : List SearchState} (h : List.IsChain s.Step (state :: states))
    (hne : state.working ≠ []) : states.length ≤ state.working.length := by
  cases states with
  | nil => exact Nat.zero_le _
  | cons next states =>
      rw [List.isChain_cons_cons] at h
      have hrest := length_le_of_splits (isChain_splits h.2 (isNaN_of_step h.1))
      have hle := length_working_le_of_step h.1
      have hpos := List.length_pos_of_ne_nil hne
      rw [List.length_cons]
      omega

theorem length_le_of_initial {states : List SearchState}
    (h : List.IsChain s.Step (s.initial :: states)) : states.length ≤ s.subjects.length := by
  by_cases hne : s.subjects = []
  · -- The impurity of no weights is infinite, hence a number.
    have himp : s.initial.impurity = infinite := by
      simp [initial, hne, weights, Criterion.node]
    have hn : s.initial.impurity.isNaN = false := himp ▸ isNaN_infinite
    have := length_le_of_splits (isChain_splits h hn)
    exact this.trans (Nat.sub_le _ _)
  · exact length_le_of_steps h hne

section Source

variable {G : Type} [RandomSource G] {g : G} {o : Option G}

-- A wheel takes one word, and nothing is drawn for the lowest impurity.
theorem remains_select (ho : Random.Remains g o) (strategy : Strategy) (impurities : List Float) :
    Random.Remains g (strategy.select impurities o).2 := by
  obtain ⟨h, rfl, hreach⟩ := ho
  have hword : Random.Remains g (some (RandomSource.word64 h).2) :=
    ⟨_, rfl, hreach.trans (.word .wide (.refl _))⟩
  cases strategy with
  | best =>
      simp only [Strategy.select]
      split <;> exact ⟨h, rfl, hreach⟩
  | roulette =>
      simp only [Strategy.select, Strategy.spin]
      split
      · exact ⟨h, rfl, hreach⟩
      · split
        · split <;> exact hword
        · exact ⟨h, rfl, hreach⟩

variable (hg : Random.Answers g)

include hg

theorem remains_round (s : ClauseSearch) (state : SearchState) (ho : Random.Remains g o) :
    Random.Remains g (s.round state o).2 := by
  have hsampled : Random.Remains g (s.samplePredicates o).2 := ho.shuffle hg _
  rw [round_eq]
  split
  · exact hsampled
  · exact remains_select (hsampled.shuffle hg _) _ _

theorem remains_run (s : ClauseSearch) (state : SearchState) (ho : Random.Remains g o) :
    Random.Remains g (s.run state o).2.2 := by
  fun_induction s.run state o with
  | case1 state o reason o' h =>
      have hround := remains_round hg s state ho
      rwa [h] at hround
  | case2 state o next o' h reason he =>
      have hround := remains_round hg s state ho
      rwa [h] at hround
  | case3 state o next o' h he ih =>
      have hround := remains_round hg s state ho
      rw [h] at hround
      exact ih hround

theorem remains_learn (s : ClauseSearch) : Random.Remains g (s.learn g).2 := by
  simp only [learn]
  split
  · exact .refl g
  · exact remains_run hg s s.initial (.refl g)

end Source

/-- The search comes to an end if its draws are answered. Whatever they are, its clause has at most
as many literals as there are examples. -/
theorem exists_bounded_run {G : Type} [RandomSource G] (space : SearchSpace) (store : Store)
    (limits : SearchLimits) (examples : List Fact) (g : G) :
    let s := start space store limits examples
    let impurity := limits.criterion.node (examples.map Fact.weight)
    (Random.Answers g → ∃ h, (s.learn g).2 = some h) ∧
    ∃ states reason g', Run s (some g) states reason g' ∧ (s.learn g).2 = g' ∧
      (s.learn g).1.clause = (states.getLastD s.initial).clause ∧
      (s.learn g).1.clause.length = states.length ∧
      (s.learn g).1.clause.length ≤ examples.length ∧
      s.initial.impurity = impurity ∧
      (impurity.isNaN = false → List.IsChain Splits (s.initial :: states) ∧
        (examples ≠ [] → (s.learn g).1.clause.length ≤ examples.length - 1)) := by
  intro s impurity
  refine ⟨fun hg => (remains_learn hg s).imp fun _ => And.left, ?_⟩
  obtain ⟨states, reason, g', hrun, heq⟩ := s.exists_run g
  have hchain := hrun.isChain
  have hweights : weights s.subjects = examples.map Fact.weight :=
    weights_start space store limits examples
  have hsubjects : s.subjects.length = examples.length := by
    simpa [weights] using congrArg List.length hweights
  have himp : s.initial.impurity = impurity := congrArg limits.criterion.node hweights
  have hlen : (s.learn g).1.clause.length = states.length := by
    rw [heq, length_clause_of_isChain hchain]
    exact Nat.zero_add _
  refine ⟨states, reason, g', hrun, by rw [heq], by rw [heq], hlen, ?_, himp, ?_⟩
  · rw [hlen, ← hsubjects]
    exact length_le_of_initial hchain
  · intro hn
    have hsplits := isChain_splits hchain (himp ▸ hn)
    refine ⟨hsplits, fun _ => ?_⟩
    rw [hlen, ← hsubjects]
    exact length_le_of_splits hsplits

theorem exists_bounded_run_of_two :
    let space : SearchSpace := ⟨"flies", [⟨"flies", [⟨.input, "animal"⟩]⟩,
        ⟨"bird", [⟨.input, "animal"⟩]⟩, ⟨"fish", [⟨.input, "animal"⟩]⟩],
      .ofList [("flies", ["animal"]), ("bird", ["animal"]), ("fish", ["animal"])], .empty⟩
    let store := Store.compile [⟨1.0, "bird", ["tweety"]⟩, ⟨1.0, "fish", ["nemo"]⟩]
    let limits : SearchLimits := ⟨none, none, 1, .gini, .roulette, false⟩
    let examples : List Fact := [⟨1.0, "flies", ["tweety"]⟩, ⟨0.0, "flies", ["nemo"]⟩]
    let s := start space store limits examples
    s.predicates.length = 2 ∧ (limits.criterion.node (examples.map Fact.weight)).isNaN = false ∧
      examples ≠ [] ∧ (∃ h, (s.learn (⟨3⟩ : SplitMix)).2 = some h) ∧
      ∃ states reason g', Run s (some (⟨3⟩ : SplitMix)) states reason g' ∧
        List.IsChain Splits (s.initial :: states) ∧
        (s.learn (⟨3⟩ : SplitMix)).1.clause.length ≤ 1 := by
  intro space store limits examples s
  have hn : (limits.criterion.node (examples.map Fact.weight)).isNaN = false := by decide +kernel
  have hne : examples ≠ [] := List.cons_ne_nil _ _
  obtain ⟨hends, states, reason, g', hrun, _, _, _, _, _, h⟩ :=
    exists_bounded_run space store limits examples (⟨3⟩ : SplitMix)
  exact ⟨by decide +kernel, hn, hne, hends (SplitMix.fair _).answers, states, reason, g', hrun,
    (h hn).1, (h hn).2 hne⟩

end RuleInduction.ClauseSearch
