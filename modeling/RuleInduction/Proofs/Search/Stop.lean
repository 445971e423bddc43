import RuleInduction.Proofs.Search.Greedy

namespace RuleInduction.ClauseSearch

def Full (s : ClauseSearch) (c : Clause) : Prop :=
  ∃ m, s.limits.maxLiterals = some m ∧ m ≤ c.length

def Sparse (s : ClauseSearch) (subjects : List Subject) : Prop :=
  subjects.length < s.limits.minExamples

def Uniform (c : Clause) (subjects : List Subject) : Prop :=
  c ≠ [] ∧ (weights subjects).IsChain fun w w' => (w == w') = true

def extensionsAmong (s : ClauseSearch) (allowed : Std.ExtTreeSet Predicate) (c : Clause) :
    Candidates :=
  .generate s.space.modes allowed ⟨s.space.constants, s.headScope, s.bodyAfter c⟩ (s.namesAfter c)

/-- No point of the wheel can be drawn, for the shares of the literals have no finite total. -/
structure Unbounded (s : ClauseSearch) (c : Clause) (allowed : Std.ExtTreeSet Predicate)
    (literals : List Literal) : Prop where
  roulette : s.limits.strategy = .roulette
  predicates : ∀ p ∈ allowed, p ∈ s.predicates
  perm : literals.Perm (s.extensionsAmong allowed c).toList
  total : (Random.total (Strategy.shares (literals.map (s.impurityWith c)))).isFinite = false

inductive Fruitless (s : ClauseSearch) (c : Clause) : StopReason → Prop
  | exhausted : Fruitless s c .exhausted
  | noViableCandidate : Fruitless s c .noViableCandidate
  | noImprovement : Fruitless s c .noImprovement
  | unboundedWheel {allowed : Std.ExtTreeSet Predicate} {literals : List Literal}
      (h : s.Unbounded c allowed literals) : Fruitless s c .unboundedWheel

inductive Ending (s : ClauseSearch) (c : Clause) (subjects : List Subject) : StopReason → Prop
  | maxLiterals (hfull : s.Full c) : Ending s c subjects .maxLiterals
  | tooFewExamples (hfull : ¬ s.Full c) (hsparse : s.Sparse subjects) :
      Ending s c subjects .tooFewExamples
  | pure (hfull : ¬ s.Full c) (hsparse : ¬ s.Sparse subjects) (huniform : Uniform c subjects) :
      Ending s c subjects .pure
  | fruitless {reason : StopReason} (hfull : ¬ s.Full c) (hsparse : ¬ s.Sparse subjects)
      (huniform : ¬ Uniform c subjects) (h : s.Fruitless c reason) : Ending s c subjects reason

def matchedBy (s : ClauseSearch) (c : Clause) : List Subject :=
  s.subjects.filter fun e => binaryStrengths e.view e.bindings c = List.replicate c.length 1.0

variable {s : ClauseSearch} {state next : SearchState} {reason : StopReason}

theorem allEqual_iff {ws : List Float} :
    allEqual ws = true ↔ ws.IsChain fun w w' => (w == w') = true := by
  induction ws with
  | nil => exact iff_of_true rfl .nil
  | cons w ws ih =>
      cases ws with
      | nil => exact iff_of_true rfl (.singleton w)
      | cons w' ws => rw [allEqual, Bool.and_eq_true, ih, List.isChain_cons_cons]

theorem full_iff {c : Clause} :
    s.limits.maxLiterals.any (· ≤ c.length) = true ↔ s.Full c := by
  simp only [Full, Option.any_eq_true, decide_eq_true_eq]

theorem limitReached?_cases (s : ClauseSearch) (state : SearchState) :
    (s.Full state.clause ∧ s.limitReached? state = some .maxLiterals) ∨
    (¬ s.Full state.clause ∧ s.Sparse state.working ∧
      s.limitReached? state = some .tooFewExamples) ∨
    (¬ s.Full state.clause ∧ ¬ s.Sparse state.working ∧ s.limitReached? state = none) := by
  by_cases hfull : s.Full state.clause
  · exact Or.inl ⟨hfull, if_pos (full_iff.2 hfull)⟩
  · by_cases hsparse : s.Sparse state.working
    · refine Or.inr (Or.inl ⟨hfull, hsparse, ?_⟩)
      rw [limitReached?, if_neg (mt full_iff.1 hfull)]
      exact if_pos hsparse
    · refine Or.inr (Or.inr ⟨hfull, hsparse, ?_⟩)
      rw [limitReached?, if_neg (mt full_iff.1 hfull)]
      exact if_neg hsparse

-- Before the first literal a search does not end for being pure, and `Uniform` asks for a literal.
theorem ending_of_ending? (h : s.ending? state = some reason) :
    s.Ending state.clause state.working reason := by
  rcases s.limitReached?_cases state with
    ⟨hfull, hlimit⟩ | ⟨hfull, hsparse, hlimit⟩ | ⟨hfull, hsparse, hlimit⟩
  · simp only [ending?, endReached?, hlimit, ite_self, Option.some.injEq] at h
    exact h ▸ .maxLiterals hfull
  · simp only [ending?, endReached?, hlimit, ite_self, Option.some.injEq] at h
    exact h ▸ .tooFewExamples hfull hsparse
  · simp only [ending?, endReached?, hlimit] at h
    split at h
    · cases h
    · next hclause =>
        split at h
        · next hequal =>
            cases h
            exact .pure hfull hsparse ⟨hclause, allEqual_iff.1 hequal⟩
        · cases h

theorem not_ended_of_ending? (h : s.ending? state = none) : ¬ s.Full state.clause ∧
    ¬ s.Sparse state.working ∧ ¬ Uniform state.clause state.working := by
  rcases s.limitReached?_cases state with ⟨_, hlimit⟩ | ⟨_, _, hlimit⟩ | ⟨hfull, hsparse, hlimit⟩
  · cases hlimit.symm.trans (limitReached?_of_ending? h)
  · cases hlimit.symm.trans (limitReached?_of_ending? h)
  · refine ⟨hfull, hsparse, ?_⟩
    rintro ⟨hclause, hequal⟩
    simp only [ending?, if_neg hclause, endReached?, hlimit, allEqual_iff.2 hequal,
      if_true] at h
    cases h

section Ending

variable {c : Clause} {subjects : List Subject}

theorem Ending.maxLiterals_iff (h : s.Ending c subjects reason) :
    reason = .maxLiterals ↔ s.Full c := by
  cases h with
  | maxLiterals hfull => exact iff_of_true rfl hfull
  | tooFewExamples hfull => exact iff_of_false StopReason.noConfusion hfull
  | pure hfull => exact iff_of_false StopReason.noConfusion hfull
  | fruitless hfull _ _ h =>
      refine iff_of_false ?_ hfull
      rintro rfl
      cases h

theorem Ending.tooFewExamples_iff (h : s.Ending c subjects reason) (hc : ¬ s.Full c) :
    reason = .tooFewExamples ↔ s.Sparse subjects := by
  cases h with
  | maxLiterals hfull => exact absurd hfull hc
  | tooFewExamples _ hsparse => exact iff_of_true rfl hsparse
  | pure _ hsparse => exact iff_of_false StopReason.noConfusion hsparse
  | fruitless _ hsparse _ h =>
      refine iff_of_false ?_ hsparse
      rintro rfl
      cases h

theorem Ending.pure_iff (h : s.Ending c subjects reason) (hc : ¬ s.Full c)
    (hs : ¬ s.Sparse subjects) : reason = .pure ↔ Uniform c subjects := by
  cases h with
  | maxLiterals hfull => exact absurd hfull hc
  | tooFewExamples _ hsparse => exact absurd hsparse hs
  | pure _ _ huniform => exact iff_of_true rfl huniform
  | fruitless _ _ huniform h =>
      refine iff_of_false ?_ huniform
      rintro rfl
      cases h

theorem Ending.to_fruitless (h : s.Ending c subjects reason) (hc : ¬ s.Full c)
    (hs : ¬ s.Sparse subjects) (hu : ¬ Uniform c subjects) : s.Fruitless c reason := by
  cases h with
  | maxLiterals hfull => exact absurd hfull hc
  | tooFewExamples _ hsparse => exact absurd hsparse hs
  | pure _ _ huniform => exact absurd huniform hu
  | fruitless _ _ _ h => exact h

theorem Fruitless.reasons (h : s.Fruitless c reason) (hreason : reason ≠ .unboundedWheel) :
    reason = .exhausted ∨ reason = .noViableCandidate ∨ reason = .noImprovement := by
  cases h with
  | exhausted => exact .inl rfl
  | noViableCandidate => exact .inr (.inl rfl)
  | noImprovement => exact .inr (.inr rfl)
  | unboundedWheel => exact absurd rfl hreason

theorem Ending.exists_unbounded (h : s.Ending c subjects reason)
    (hreason : reason = .unboundedWheel) : ∃ allowed literals, s.Unbounded c allowed literals := by
  subst hreason
  cases h with
  | fruitless _ _ _ h =>
      cases h with
      | unboundedWheel h => exact ⟨_, _, h⟩

end Ending

theorem matchedBy_nil (s : ClauseSearch) : s.matchedBy [] = s.subjects :=
  List.filter_eq_self.2 fun _ _ => decide_eq_true rfl

theorem matchedBy_eq (h : Accounts s state) : state.working = s.matchedBy state.clause := by
  simp only [h.working, matchedBy, binaryStrengths_eq_ones]
  rfl

variable {G : Type} [RandomSource G]

theorem considered_perm (h : Determined s state) (g : Option G) :
    (s.considered state g).1.Perm
      (s.extensionsAmong (s.samplePredicates g).1 state.clause).toList := by
  rw [extensionsAmong, ← h.body, ← h.names]
  exact (Random.shuffle_perm _ _).trans (Candidates.ordered_perm _ _)

theorem unbounded_of_spin {impurities : List Float} {g : G}
    (h : (Strategy.spin impurities g).1 = .unbounded) :
    (Random.total (Strategy.shares impurities)).isFinite = false := by
  simp only [Strategy.spin] at h
  split at h
  · cases h
  · split at h
    · split at h <;> cases h
    · next hfinite => exact Bool.eq_false_iff.2 hfinite

theorem unbounded_of_select (h : Determined s state) {g g' : Option G}
    (hselected : (s.limits.strategy.select
      (((s.considered state g).1.map (s.score state)).map Scored.impurity) g').1 = .unbounded) :
    s.Unbounded state.clause (s.samplePredicates g).1 (s.considered state g).1 := by
  rw [h.impurities] at hselected
  cases hstrategy : s.limits.strategy with
  | best =>
      simp only [hstrategy, Strategy.select] at hselected
      split at hselected <;> cases hselected
  | roulette =>
      rw [hstrategy] at hselected
      exact ⟨hstrategy, fun _ => mem_of_mem_samplePredicates, considered_perm h g,
        unbounded_of_spin hselected⟩

theorem fruitless_of_round (hstate : Determined s state) {g : Option G}
    (h : (s.round state g).1 = .stopped reason) : s.Fruitless state.clause reason := by
  rw [round_eq] at h
  split at h
  · cases h
    exact .exhausted
  · simp only [outcome] at h
    split at h
    · cases h
      exact .noViableCandidate
    · next hselected =>
        cases h
        exact .unboundedWheel (unbounded_of_select hstate hselected)
    · split at h
      · split at h
        · cases h
          exact .noImprovement
        · cases h
      · cases h
        exact .noViableCandidate

structure Counted (s : ClauseSearch) (state : SearchState) : Prop where
  determined : Determined s state
  length_le : ∀ m, s.limits.maxLiterals = some m → state.clause.length ≤ m

theorem counted_initial : Counted s s.initial where
  determined := determined_initial
  length_le := fun m _ => Nat.zero_le m

theorem counted_of_round (h : Counted s state) (hopen : s.ending? state = none) {g : Option G}
    (hround : (s.round state g).1 = .grown next) : Counted s next := by
  obtain ⟨l, hl, rfl⟩ := step_of_grown hround
  refine ⟨determined_of_step h.determined ⟨l, hl, rfl⟩, fun m hm => ?_⟩
  have hlt : ¬ m ≤ state.clause.length := fun hle => (not_ended_of_ending? hopen).1 ⟨m, hm, hle⟩
  rw [clause_accept, List.length_append, List.length_singleton]
  omega

theorem ending_learn (s : ClauseSearch) (g : G) :
    s.Ending (s.learn g).1.clause (s.matchedBy (s.learn g).1.clause) (s.learn g).1.stop ∧
      ∀ m, s.limits.maxLiterals = some m → (s.learn g).1.clause.length ≤ m := by
  obtain ⟨state, hcounted, hclause, hend⟩ :=
    s.learn_stops counted_initial (fun _ _ _ h hopen => counted_of_round h hopen) g
  rw [hclause, ← matchedBy_eq hcounted.determined.accounts]
  refine ⟨?_, hcounted.length_le⟩
  rcases hend with ⟨hopen, g', hround⟩ | hend
  · obtain ⟨hfull, hsparse, huniform⟩ := not_ended_of_ending? hopen
    exact .fruitless hfull hsparse huniform (fruitless_of_round hcounted.determined hround)
  · exact ending_of_ending? hend

theorem stop_learn (space : SearchSpace) (store : Store) (limits : SearchLimits)
    (examples : List Fact) (g : G) :
    let s := start space store limits examples
    let c := (s.learn g).1
    let matched := s.matchedBy c.clause
    (c.clause = [] → matched = s.subjects) ∧
      (c.stop = .maxLiterals ↔ s.Full c.clause) ∧
      (s.Full c.clause → limits.maxLiterals = some c.clause.length) ∧
      (¬ s.Full c.clause → (c.stop = .tooFewExamples ↔ s.Sparse matched)) ∧
      (¬ s.Full c.clause → ¬ s.Sparse matched → (c.stop = .pure ↔ Uniform c.clause matched)) ∧
      (¬ s.Full c.clause → ¬ s.Sparse matched → ¬ Uniform c.clause matched →
        c.stop ≠ .unboundedWheel →
        c.stop = .exhausted ∨ c.stop = .noViableCandidate ∨ c.stop = .noImprovement) ∧
      (c.stop = .unboundedWheel → ∃ allowed literals, s.Unbounded c.clause allowed literals) := by
  intro s c matched
  obtain ⟨hend, hlength⟩ := s.ending_learn g
  refine ⟨?_, hend.maxLiterals_iff, ?_, hend.tooFewExamples_iff, hend.pure_iff,
    fun hfull hsparse huniform => (hend.to_fruitless hfull hsparse huniform).reasons,
    hend.exists_unbounded⟩
  · intro hnil
    rw [← s.matchedBy_nil, ← hnil]
  · rintro ⟨m, hm, hle⟩
    exact hm.trans (congrArg some (Nat.le_antisymm hle (hlength m hm)))

theorem stop_learn_bird :
    let space : SearchSpace := ⟨"flies",
      [⟨"flies", [⟨.input, "animal"⟩]⟩, ⟨"bird", [⟨.input, "animal"⟩]⟩],
      .ofList [("flies", ["animal"]), ("bird", ["animal"])], .empty⟩
    let store := Store.compile [⟨1.0, "bird", ["tweety"]⟩, ⟨1.0, "bird", ["polly"]⟩]
    let limits : SearchLimits := ⟨some 2, none, 2, .mse, .best, false⟩
    let examples : List Fact :=
      [⟨1.0, "flies", ["tweety"]⟩, ⟨0.0, "flies", ["tom"]⟩, ⟨1.0, "flies", ["polly"]⟩]
    let s := start space store limits examples
    let c := (s.learn (⟨3⟩ : SplitMix)).1
    c.clause = [⟨"bird", [.var "A"]⟩] ∧ ¬ s.Full c.clause ∧ ¬ s.Sparse (s.matchedBy c.clause) ∧
      Uniform c.clause (s.matchedBy c.clause) ∧ c.stop = .pure := by
  intro space store limits examples s c
  have hclause : c.clause = [⟨"bird", [.var "A"]⟩] := by decide +kernel
  have hmatched : weights (s.matchedBy c.clause) = [1.0, 1.0] := by
    rw [hclause]
    decide +kernel
  have hfull : ¬ s.Full c.clause := by
    rintro ⟨m, hm, hle⟩
    cases hm
    rw [hclause] at hle
    exact absurd hle (by decide)
  have hsparse : ¬ s.Sparse (s.matchedBy c.clause) := by
    have hlength := congrArg List.length hmatched
    rw [weights, List.length_map] at hlength
    exact Nat.not_lt_of_le (Nat.le_of_eq hlength.symm)
  have huniform : Uniform c.clause (s.matchedBy c.clause) := by
    refine ⟨hclause ▸ List.cons_ne_nil _ _, ?_⟩
    rw [hmatched]
    exact .cons_cons (by decide) (.singleton _)
  have h := stop_learn space store limits examples (⟨3⟩ : SplitMix)
  exact ⟨hclause, hfull, hsparse, huniform, (h.2.2.2.2.1 hfull hsparse).2 huniform⟩

end RuleInduction.ClauseSearch
