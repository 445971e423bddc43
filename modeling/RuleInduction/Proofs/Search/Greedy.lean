import RuleInduction.Proofs.Search.Agreement
import RuleInduction.Proofs.Search.WellModed

namespace RuleInduction.ClauseSearch

def covered (s : ClauseSearch) (c : Clause) : List Subject :=
  s.subjects.filter fun e => e.firstFailing? c = none

def bodyAfter (s : ClauseSearch) (c : Clause) : Scope :=
  c.foldl (fun body l => s.bindBody l body) .empty

def namesAfter (s : ClauseSearch) (c : Clause) : FreshNames :=
  (c.flatMap Literal.vars).foldl FreshNames.reserve s.names

def extensions (s : ClauseSearch) (c : Clause) : Candidates :=
  .generate s.space.modes (.ofList s.predicates) ⟨s.space.constants, s.headScope, s.bodyAfter c⟩
    (s.namesAfter c)

def impurityWith (s : ClauseSearch) (c : Clause) (l : Literal) : Float :=
  s.limits.criterion.split ((s.covered c).map (lastStrength (c ++ [l]))) (weights (s.covered c))

def impurityOf (s : ClauseSearch) (c : Clause) : Float :=
  match c.getLast? with
  | some l => s.impurityWith c.dropLast l
  | none => s.limits.criterion.node (weights s.subjects)

structure Best (s : ClauseSearch) (c : Clause) (l : Literal) : Prop where
  candidate : l ∈ s.extensions c
  number : (s.impurityWith c l).isNaN = false
  least : ∀ m ∈ s.extensions c, (s.impurityWith c m).isNaN = false →
    s.impurityWith c l ≤ s.impurityWith c m

structure Greedy (s : ClauseSearch) (c : Clause) (l : Literal) : Prop extends Best s c l where
  purer : ¬ s.impurityWith c l ≥ s.impurityOf c

structure Determined (s : ClauseSearch) (state : SearchState) : Prop where
  accounts : Accounts s state
  body : state.body = s.bodyAfter state.clause
  names : state.names = s.namesAfter state.clause
  impurity : state.impurity = s.impurityOf state.clause

variable {s : ClauseSearch} {state next : SearchState} {l : Literal}

theorem impurityOf_append (c : Clause) (l : Literal) :
    s.impurityOf (c ++ [l]) = s.impurityWith c l := by
  rw [impurityOf, List.getLast?_concat, List.dropLast_concat]

theorem Determined.working (h : Determined s state) : state.working = s.covered state.clause := by
  simp only [h.accounts.working, covered, Subject.firstFailing?_eq_none]

theorem Determined.score (h : Determined s state) (l : Literal) :
    (s.score state l).impurity = s.impurityWith state.clause l := by
  simp only [ClauseSearch.score, h.working, impurityWith]

theorem Determined.impurities (h : Determined s state) (literals : List Literal) :
    (literals.map (s.score state)).map Scored.impurity =
      literals.map (s.impurityWith state.clause) := by
  rw [List.map_map]
  exact List.map_congr_left fun l _ => h.score l

theorem determined_initial : Determined s s.initial where
  accounts := accounts_initial
  body := rfl
  names := rfl
  impurity := rfl

theorem determined_of_step (h : Determined s state) (hstep : s.Step state next) :
    Determined s next := by
  have haccounts := accounts_of_step h.accounts hstep
  obtain ⟨l, _, rfl⟩ := hstep
  refine ⟨haccounts, ?_, ?_, ?_⟩
  · simp only [accept, h.body, bodyAfter, List.foldl_append]
    rfl
  · simp only [accept, h.names, namesAfter, List.flatMap_append, List.foldl_append,
      List.flatMap_singleton]
  · rw [clause_accept, impurityOf_append]
    exact h.score l

variable {G : Type} [RandomSource G]

theorem samplePredicates_eq (hall : s.limits.maxPredicates = none) (g : Option G) :
    (s.samplePredicates g).1 = .ofList s.predicates :=
  samplePredicates_eq_of_le (fun n hn => by cases hall.symm.trans hn) g

theorem candidates_eq (h : Determined s state) (hall : s.limits.maxPredicates = none) (g : Option G) :
    s.candidates state (s.samplePredicates g).1 = s.extensions state.clause := by
  rw [samplePredicates_eq hall, candidates, extensions, h.body, h.names]

inductive Choice (s : ClauseSearch) (state : SearchState) : Round → Prop
  | exhausted : Choice s state (.stopped .exhausted)
  | noViableCandidate
      (h : ∀ m ∈ s.extensions state.clause, (s.impurityWith state.clause m).isNaN = true) :
      Choice s state (.stopped .noViableCandidate)
  | noImprovement {l : Literal} (h : Best s state.clause l)
      (hge : s.impurityWith state.clause l ≥ s.impurityOf state.clause) :
      Choice s state (.stopped .noImprovement)
  | grown {l : Literal} (h : Greedy s state.clause l) :
      Choice s state (.grown (s.accept state (s.score state l)))

theorem choice_of_round (h : Determined s state) (hbest : s.limits.strategy = .best)
    (hall : s.limits.maxPredicates = none) (g : Option G) : Choice s state (s.round state g).1 := by
  have hmem (l : Literal) : l ∈ (s.considered state g).1 ↔ l ∈ s.extensions state.clause := by
    rw [mem_considered, candidates_eq h hall]
  rw [round_eq]
  split
  · exact .exhausted
  · generalize (s.considered state g).1 = ordered at hmem ⊢
    simp only [h.impurities, hbest, Strategy.select]
    cases hlow : Strategy.lowest (ordered.map (s.impurityWith state.clause)) with
    | none =>
        refine .noViableCandidate fun m hm => ?_
        exact Strategy.isNaN_of_lowest_eq_none hlow _ (List.mem_map_of_mem ((hmem m).2 hm))
    | some i =>
        obtain ⟨x, hx, hnum⟩ := Strategy.isNaN_of_lowest hlow
        have hleast := Strategy.le_of_lowest hlow hx
        rw [List.getElem?_map, Option.map_eq_some_iff] at hx
        obtain ⟨l, hl, rfl⟩ := hx
        have hchosen : Best s state.clause l :=
          ⟨(hmem l).1 (List.mem_of_getElem? hl), hnum,
            fun m hm => hleast _ (List.mem_map_of_mem ((hmem m).2 hm))⟩
        simp only [outcome, List.getElem?_map, hl, Option.map_some, h.score, h.impurity]
        split
        · next hge => exact .noImprovement hchosen hge
        · next hge => exact .grown ⟨hchosen, hge⟩

theorem step_of_greedy (h : Determined s state) (hall : s.limits.maxPredicates = none) (g : Option G)
    (hl : Greedy s state.clause l) : s.Step state (s.accept state (s.score state l)) := by
  refine ⟨l, ⟨⟨(s.samplePredicates g).1, fun _ => mem_of_mem_samplePredicates, ?_⟩, ?_, ?_⟩, rfl⟩
  · rw [candidates_eq h hall]
    exact hl.candidate
  · rw [h.score]
    exact hl.number
  · rw [h.score, h.impurity]
    exact hl.purer

theorem reason_of_limitReached {reason : StopReason} (h : s.limitReached? state = some reason) :
    reason = .maxLiterals ∨ reason = .tooFewExamples := by
  simp only [limitReached?] at h
  split at h
  · exact Or.inl (Option.some.inj h).symm
  · split at h
    · exact Or.inr (Option.some.inj h).symm
    · cases h

theorem reason_of_endReached {reason : StopReason} (h : s.endReached? state = some reason) :
    reason = .maxLiterals ∨ reason = .tooFewExamples ∨ reason = .pure := by
  simp only [endReached?] at h
  split at h
  · next hlimit =>
      cases h
      exact (reason_of_limitReached hlimit).imp_right Or.inl
  · split at h
    · exact Or.inr (Or.inr (Option.some.inj h).symm)
    · cases h

def GreedyClause (s : ClauseSearch) (clause : Clause) : Prop :=
  ∀ (k : Nat) (l : Literal), clause[k]? = some l → Greedy s (clause.take k) l

theorem greedyClause_append {c : Clause} (h : GreedyClause s c) (hl : Greedy s c l) :
    GreedyClause s (c ++ [l]) := by
  intro k m hk
  rcases Clause.getElem?_append_singleton hk with ⟨hlt, hk⟩ | ⟨rfl, rfl⟩
  · rw [List.take_append_of_le_length (Nat.le_of_lt hlt)]
    exact h k m hk
  · rw [List.take_left']
    exacts [hl, rfl]

structure Path (s : ClauseSearch) (state : SearchState) : Prop where
  determined : Determined s state
  greedy : GreedyClause s state.clause

theorem path_initial : Path s s.initial where
  determined := determined_initial
  greedy := by
    intro k l hk
    cases hk

theorem path_of_round (h : Path s state) (hbest : s.limits.strategy = .best)
    (hall : s.limits.maxPredicates = none) (g : Option G)
    (hround : (s.round state g).1 = .grown next) :
    Path s next := by
  have hchoice := choice_of_round h.determined hbest hall g
  rw [hround] at hchoice
  cases hchoice with
  | grown hl =>
      exact ⟨determined_of_step h.determined (step_of_greedy h.determined hall g hl),
        greedyClause_append h.greedy hl⟩

theorem not_lt_of_noImprovement (h : Choice s state (.stopped .noImprovement)) :
    ∀ m ∈ s.extensions state.clause,
      ¬ s.impurityWith state.clause m < s.impurityOf state.clause := by
  cases h with
  | noImprovement hbest hge =>
      intro m hm hlt
      have hle := FloatOrder.le_trans hge (hbest.least m hm (FloatOrder.isNaN_of_lt hlt))
      exact FloatOrder.not_lt_of_ge hle hlt

theorem Best.impurity_le (hl : Best s state.clause l) (hm : Best s state.clause m) :
    s.impurityWith state.clause l ≤ s.impurityWith state.clause m :=
  hl.least m hm.candidate hm.number

theorem exhausted_iff (h : Determined s state) (hall : s.limits.maxPredicates = none) (g : Option G) :
    (s.round state g).1 = .stopped .exhausted ↔ (s.extensions state.clause).isEmpty = true := by
  rw [exhausted_iff_isEmpty, candidates_eq h hall]

theorem not_exhausted (h : Determined s state) (hall : s.limits.maxPredicates = none)
    (hl : l ∈ s.extensions state.clause) (g : Option G) :
    (s.round state g).1 ≠ .stopped .exhausted := by
  rw [Ne, exhausted_iff h hall, Std.ExtTreeSet.isEmpty_iff]
  rintro hempty
  rw [hempty] at hl
  exact Std.ExtTreeSet.not_mem_empty hl

theorem grown_of_greedy (h : Determined s state) (hbest : s.limits.strategy = .best)
    (hall : s.limits.maxPredicates = none) (hl : Greedy s state.clause l)
    (huntied : ∀ m, Best s state.clause m → m = l) (g : Option G) :
    (s.round state g).1 = .grown (s.accept state (s.score state l)) := by
  have hchoice := choice_of_round h hbest hall g
  have hexhausted := not_exhausted h hall hl.candidate g
  generalize (s.round state g).1 = r at hexhausted hchoice ⊢
  cases hchoice with
  | exhausted => exact absurd rfl hexhausted
  | noViableCandidate hnone => cases (hnone l hl.candidate).symm.trans hl.number
  | noImprovement hm hge =>
      exact absurd (FloatOrder.le_trans hge (hm.impurity_le hl.toBest)) hl.purer
  | grown hm => rw [huntied _ hm.toBest]

theorem clause_learn_of_greedy (hbest : s.limits.strategy = .best)
    (hall : s.limits.maxPredicates = none) (hlimit : s.limitReached? s.initial = none)
    (hl : Greedy s [] l) (huntied : ∀ m, Best s [] m → m = l)
    (hend : (s.endReached? (s.accept s.initial (s.score s.initial l))).isSome = true) (g : G) :
    (s.learn g).1.clause = [l] := by
  obtain ⟨reason, hend⟩ := Option.isSome_iff_exists.1 hend
  have hround := grown_of_greedy determined_initial hbest hall hl huntied (some g)
  simp only [learn, hlimit, run_of_grown (Prod.ext hround rfl), hend]
  exact clause_accept

theorem greedy_learn (space : SearchSpace) (store : Store) (limits : SearchLimits)
    (examples : List Fact) (g : G) (hbest : limits.strategy = .best)
    (hall : limits.maxPredicates = none) :
    let s := start space store limits examples
    let c := (s.learn g).1
    (∀ (k : Nat) (l : Literal), c.clause[k]? = some l → Greedy s (c.clause.take k) l) ∧
      (c.stop = .noImprovement → ∀ m ∈ s.extensions c.clause,
        ¬ s.impurityWith c.clause m < s.impurityOf c.clause) ∧
      (c.stop = .noViableCandidate → ∀ m ∈ s.extensions c.clause,
        (s.impurityWith c.clause m).isNaN = true) := by
  intro s c
  obtain ⟨state, hpath, hclause, hend⟩ := s.learn_ends path_initial
    (fun _ _ g h => path_of_round h hbest hall g) g
  simp only [c, hclause]
  refine ⟨hpath.greedy, fun hstop => ?_, fun hstop => ?_⟩
  · rw [hstop] at hend
    rcases hend with ⟨g', hround⟩ | hend
    · exact not_lt_of_noImprovement (hround ▸ choice_of_round hpath.determined hbest hall g')
    · rcases reason_of_endReached hend with h | h | h <;> cases h
  · rw [hstop] at hend
    rcases hend with ⟨g', hround⟩ | hend
    · have hchoice := hround ▸ choice_of_round hpath.determined hbest hall g'
      cases hchoice with
      | noViableCandidate h => exact h
    · rcases reason_of_endReached hend with h | h | h <;> cases h

-- A pet may not fly, so that of the two candidates only one is best.
theorem greedy_learn_bird :
    let space : SearchSpace := ⟨"flies", [⟨"flies", [⟨.input, "animal"⟩]⟩,
      ⟨"bird", [⟨.input, "animal"⟩]⟩, ⟨"pet", [⟨.input, "animal"⟩]⟩],
      .ofList [("flies", ["animal"]), ("bird", ["animal"]), ("pet", ["animal"])], .empty⟩
    let store := Store.compile [⟨1.0, "bird", ["tweety"]⟩, ⟨1.0, "pet", ["tom"]⟩,
      ⟨1.0, "pet", ["tweety"]⟩]
    let limits : SearchLimits := ⟨none, none, 1, .gini, .best, false⟩
    let examples : List Fact := [⟨1.0, "flies", ["tweety"]⟩, ⟨0.0, "flies", ["tom"]⟩,
      ⟨0.0, "flies", ["rex"]⟩]
    let s := start space store limits examples
    limits.strategy = .best ∧ limits.maxPredicates = none ∧
      (s.extensions []).toList = [⟨"bird", [.var "A"]⟩, ⟨"pet", [.var "A"]⟩] ∧
      (s.learn (⟨3⟩ : SplitMix)).1.clause = [⟨"bird", [.var "A"]⟩] ∧
      Greedy s [] ⟨"bird", [.var "A"]⟩ ∧ ¬ Best s [] ⟨"pet", [.var "A"]⟩ := by
  intro space store limits examples s
  have hextensions : (s.extensions []).toList =
      [⟨"bird", [.var "A"]⟩, ⟨"pet", [.var "A"]⟩] := by decide +kernel
  have hmem (m : Literal) (hm : m ∈ s.extensions []) :
      m = ⟨"bird", [.var "A"]⟩ ∨ m = ⟨"pet", [.var "A"]⟩ := by
    rw [← Std.ExtTreeSet.mem_toList, hextensions] at hm
    simpa using hm
  have hbird : Greedy s [] ⟨"bird", [.var "A"]⟩ := by
    refine ⟨⟨by decide +kernel, by decide +kernel, fun m hm _ => ?_⟩, by decide +kernel⟩
    rcases hmem m hm with rfl | rfl <;> decide +kernel
  have hpet : ¬ Best s [] ⟨"pet", [.var "A"]⟩ := fun h =>
    absurd (h.least _ hbird.candidate hbird.number) (by decide +kernel)
  have hclause : (s.learn (⟨3⟩ : SplitMix)).1.clause = [⟨"bird", [.var "A"]⟩] := by
    refine clause_learn_of_greedy rfl rfl (by decide +kernel) hbird (fun m hm => ?_)
      (by decide +kernel) _
    refine (hmem m hm.candidate).resolve_right ?_
    rintro rfl
    exact hpet hm
  have h := greedy_learn space store limits examples (⟨3⟩ : SplitMix) rfl rfl
  exact ⟨rfl, rfl, hextensions, hclause, h.1 0 _ (congrArg (·[0]?) hclause), hpet⟩

end RuleInduction.ClauseSearch
