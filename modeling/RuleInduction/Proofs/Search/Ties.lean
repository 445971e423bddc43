import RuleInduction.Proofs.Search.Greedy
import RuleInduction.Random.Generator

namespace RuleInduction.ClauseSearch

variable {s : ClauseSearch} {state next : SearchState} {l m : Literal}

variable {G G' : Type} [RandomSource G] [RandomSource G']

-- Only the literal that is accepted may depend on a tie: whether any impurity is a number, and
-- whether the lowest one is low enough, does not.
theorem round_eq_of_untied (h : Determined s state) (hbest : s.limits.strategy = .best)
    (hall : s.limits.maxPredicates = none) {g : Option G}
    (huntied : ∀ next, (s.round state g).1 = .grown next →
      ∀ l m, Best s state.clause l → Best s state.clause m → l = m) (g' : Option G') :
    (s.round state g').1 = (s.round state g).1 := by
  have hexhausted := (exhausted_iff h hall g').trans (exhausted_iff h hall g).symm
  have hchoice := choice_of_round h hbest hall g
  have hchoice' := choice_of_round h hbest hall g'
  generalize (s.round state g).1 = r at hexhausted hchoice huntied ⊢
  cases hchoice with
  | exhausted => exact hexhausted.2 rfl
  | noViableCandidate hnone =>
      generalize (s.round state g').1 = r' at hexhausted hchoice' ⊢
      cases hchoice' with
      | exhausted => cases hexhausted.1 rfl
      | noViableCandidate => rfl
      | noImprovement hm => cases (hnone _ hm.candidate).symm.trans hm.number
      | grown hm => cases (hnone _ hm.candidate).symm.trans hm.number
  | noImprovement hl hge =>
      generalize (s.round state g').1 = r' at hexhausted hchoice' ⊢
      cases hchoice' with
      | exhausted => cases hexhausted.1 rfl
      | noViableCandidate hnone => cases (hnone _ hl.candidate).symm.trans hl.number
      | noImprovement => rfl
      | grown hm => exact absurd (FloatOrder.le_trans hge (hl.impurity_le hm.toBest)) hm.purer
  | grown hl =>
      exact grown_of_greedy h hbest hall hl (fun m hm => huntied _ rfl m _ hm hl.toBest) g'

theorem clause_of_round {g : Option G} (h : (s.round state g).1 = .grown next) :
    ∃ l, next.clause = state.clause ++ [l] := by
  obtain ⟨l, _, rfl⟩ := step_of_grown h
  exact ⟨l, rfl⟩

theorem clause_prefix_run (s : ClauseSearch) (state : SearchState) (g : Option G) :
    state.clause <+: (s.run state g).1.clause := by
  fun_induction s.run state g with
  | case1 => exact List.prefix_rfl
  | case2 state g next g' hround =>
      obtain ⟨l, hl⟩ := clause_of_round (congrArg Prod.fst hround)
      exact ⟨[l], hl.symm⟩
  | case3 state g next g' hround _ ih =>
      obtain ⟨l, hl⟩ := clause_of_round (congrArg Prod.fst hround)
      exact List.IsPrefix.trans ⟨[l], hl.symm⟩ ih

def Untied (s : ClauseSearch) (n : Nat) (c : Clause) : Prop :=
  ∀ k, n ≤ k → k < c.length → ∀ l m, Best s (c.take k) l → Best s (c.take k) m → l = m

theorem Untied.eq_of_best {c : Clause} (h : s.Untied state.clause.length c)
    (hnext : (state.clause ++ [l]) <+: c) {l' m : Literal} (hl : Best s state.clause l')
    (hm : Best s state.clause m) : l' = m := by
  have htake : c.take state.clause.length = state.clause :=
    (List.prefix_iff_eq_take.1 ((List.prefix_append _ [l]).trans hnext)).symm
  have hlt : state.clause.length < c.length := by
    have hle := hnext.length_le
    rw [List.length_append, List.length_singleton] at hle
    exact hle
  exact h _ (Nat.le_refl _) hlt l' m (htake.symm ▸ hl) (htake.symm ▸ hm)

-- The states of the two runs are the same until the last accepted literal, and so is the round that
-- ends them.
theorem run_eq_of_untied (h : Determined s state) (hbest : s.limits.strategy = .best)
    (hall : s.limits.maxPredicates = none) (g : Option G)
    (huntied : s.Untied state.clause.length (s.run state g).1.clause) (g' : Option G') :
    (s.run state g').1 = (s.run state g).1 ∧ (s.run state g').2.1 = (s.run state g).2.1 := by
  fun_induction s.run state g generalizing g' with
  | case1 state g reason g₁ hround =>
      have heq : (s.round state g').1 = .stopped reason := by
        refine (round_eq_of_untied h hbest hall ?_ g').trans (congrArg Prod.fst hround)
        intro next hnext
        cases (congrArg Prod.fst hround).symm.trans hnext
      rw [run_of_stopped (Prod.ext heq rfl)]
      exact ⟨rfl, rfl⟩
  | case2 state g next g₁ hround reason he =>
      obtain ⟨l, hl⟩ := clause_of_round (congrArg Prod.fst hround)
      have heq : (s.round state g').1 = .grown next := by
        refine (round_eq_of_untied h hbest hall ?_ g').trans (congrArg Prod.fst hround)
        intro _ _ l' m
        exact huntied.eq_of_best ⟨[], by rw [hl, List.append_nil]⟩
      rw [run_of_grown (Prod.ext heq rfl), he]
      exact ⟨rfl, rfl⟩
  | case3 state g next g₁ hround he ih =>
      obtain ⟨l, hl⟩ := clause_of_round (congrArg Prod.fst hround)
      have heq : (s.round state g').1 = .grown next := by
        refine (round_eq_of_untied h hbest hall ?_ g').trans (congrArg Prod.fst hround)
        intro _ _ l' m
        exact huntied.eq_of_best (hl ▸ s.clause_prefix_run next g₁)
      have hnext : Determined s next := determined_of_step h (accepts_of_round hround)
      have hlater : s.Untied next.clause.length (s.run next g₁).1.clause := by
        intro k hk
        rw [hl, List.length_append] at hk
        exact huntied k (Nat.le_of_add_right_le hk)
      rw [run_of_grown (Prod.ext heq rfl), he]
      exact ih hnext hlater _

theorem learn_eq_of_unique_best (space : SearchSpace) (store : Store) (limits : SearchLimits)
    (examples : List Fact) (g : G) (g' : G') (hbest : limits.strategy = .best)
    (hall : limits.maxPredicates = none) :
    let s := start space store limits examples
    let c := (s.learn g).1
    (∀ k < c.clause.length, ∃! l, Best s (c.clause.take k) l) → (s.learn g').1 = c := by
  intro s c hunique
  have huntied : s.Untied 0 c.clause := by
    intro k _ hk l m hl hm
    exact (hunique k hk).unique hl hm
  simp only [c, learn] at huntied ⊢
  cases hlimit : s.limitReached? s.initial with
  | some reason => rfl
  | none =>
      simp only [hlimit] at huntied
      obtain ⟨hstate, hstop⟩ :=
        run_eq_of_untied determined_initial hbest hall (some g) huntied (some g')
      simp only [hstate, hstop]

theorem learn_eq_of_best_bird :
    let space : SearchSpace := ⟨"flies", [⟨"flies", [⟨.input, "animal"⟩]⟩,
      ⟨"bird", [⟨.input, "animal"⟩]⟩, ⟨"pet", [⟨.input, "animal"⟩]⟩],
      .ofList [("flies", ["animal"]), ("bird", ["animal"]), ("pet", ["animal"])], .empty⟩
    let store := Store.compile
      [⟨1.0, "bird", ["tweety"]⟩, ⟨1.0, "pet", ["tweety"]⟩, ⟨1.0, "pet", ["tom"]⟩]
    let limits : SearchLimits := ⟨none, none, 1, .mse, .best, false⟩
    let examples : List Fact :=
      [⟨1.0, "flies", ["tweety"]⟩, ⟨0.0, "flies", ["tom"]⟩, ⟨0.0, "flies", ["rex"]⟩]
    let s := start space store limits examples
    limits.strategy = .best ∧ limits.maxPredicates = none ∧
      (s.learn (⟨3⟩ : SplitMix)).1.clause = [⟨"bird", [.var "A"]⟩] ∧
      (∃! l, Best s [] l) ∧
      (s.learn (ChaCha.ofSeed 7)).1 = (s.learn (⟨3⟩ : SplitMix)).1 := by
  intro space store limits examples s
  have hmem (m : Literal) (hm : m ∈ s.extensions []) :
      m = ⟨"bird", [.var "A"]⟩ ∨ m = ⟨"pet", [.var "A"]⟩ := by
    have hextensions : (s.extensions []).toList =
        [⟨"bird", [.var "A"]⟩, ⟨"pet", [.var "A"]⟩] := by decide +kernel
    rw [← Std.ExtTreeSet.mem_toList, hextensions] at hm
    simpa using hm
  have hbird : Greedy s [] ⟨"bird", [.var "A"]⟩ := by
    refine ⟨⟨by decide +kernel, by decide +kernel, fun m hm _ => ?_⟩, by decide +kernel⟩
    rcases hmem m hm with rfl | rfl <;> decide +kernel
  have huntied (m : Literal) (hm : Best s [] m) : m = ⟨"bird", [.var "A"]⟩ := by
    refine (hmem m hm.candidate).resolve_right ?_
    rintro rfl
    exact absurd (hm.least _ hbird.candidate hbird.number) (by decide +kernel)
  have hclause : (s.learn (⟨3⟩ : SplitMix)).1.clause = [⟨"bird", [.var "A"]⟩] :=
    clause_learn_of_greedy rfl rfl (by decide +kernel) hbird huntied (by decide +kernel) _
  have hunique : ∃! l, Best s [] l := ⟨_, hbird.toBest, huntied⟩
  refine ⟨rfl, rfl, hclause, hunique, ?_⟩
  refine learn_eq_of_unique_best space store limits examples (⟨3⟩ : SplitMix) (ChaCha.ofSeed 7)
    rfl rfl fun k hk => ?_
  change k < (s.learn (⟨3⟩ : SplitMix)).1.clause.length at hk
  rw [hclause, List.length_singleton, Nat.lt_one_iff] at hk
  rw [hk]
  exact hunique

end RuleInduction.ClauseSearch
