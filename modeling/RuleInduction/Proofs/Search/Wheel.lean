import RuleInduction.Proofs.Criterion.Magnitude
import RuleInduction.Proofs.Search.Stop
import RuleInduction.Proofs.Selection.Roulette

namespace RuleInduction.ClauseSearch

open FloatValue FloatMagnitude

variable {G : Type} [RandomSource G] {s : ClauseSearch} {state next : SearchState} {g : Option G}
  {b : ℕ}

def impurities (s : ClauseSearch) (state : SearchState) (g : Option G) : List Float :=
  ((s.considered state g).1.map (s.score state)).map Scored.impurity

theorem exists_split_of_mem {x : Float} (h : x ∈ s.impurities state g) :
    ∃ strengths, x = s.limits.criterion.split strengths (weights state.working) := by
  obtain ⟨_, hc, rfl⟩ := List.mem_map.1 h
  obtain ⟨l, -, rfl⟩ := List.mem_map.1 hc
  exact ⟨_, rfl⟩

theorem working_subset_of_step (h : s.Step state next) : next.working ⊆ state.working := by
  obtain ⟨l, -, rfl⟩ := h
  rw [working_accept]
  exact List.filter_subset_self _

theorem working_subset_of_run {g' : Option G} {states : List SearchState} {reason : StopReason}
    (h : Run s g states reason g') :
    ∀ state ∈ s.initial :: states, state.working ⊆ s.subjects :=
  h.isChain.induction _ _
    (fun _ _ hstep => List.Subset.trans (working_subset_of_step hstep))
    fun _ => List.Subset.refl _

theorem isFinite_total_gini (hcriterion : s.limits.criterion = .gini)
    (hw : ∀ w ∈ weights state.working, AtMost w (2 ^ b))
    (hb : 2 * b + (min (s.impurities state g).length (2 ^ 53)).log2 ≤ 1020) :
    (Random.total (Strategy.shares (s.impurities state g))).isFinite = true := by
  -- Below `2 ^ 53` the bound would not absorb the ones that the criterion and the shares add.
  have hlarge := le_max_right b 53
  have hlog := log2_min_le (s.impurities state g).length
  refine Strategy.isFinite_total_of_atMost (e := 2 * max b 53 + 3) (fun x hx hfinite => ?_)
    (by omega)
  obtain ⟨strengths, rfl⟩ := exists_split_of_mem hx
  rw [hcriterion] at hfinite ⊢
  refine Strategy.atMost_share (Criterion.atMost_gini_split (fun w hmem => ?_) hlarge (by omega)
    hfinite) (by omega) (by omega)
  exact (hw w hmem).mono (pow_le_pow_right₀ one_le_two (le_max_left b 53))

theorem isFinite_total_mse (hcriterion : s.limits.criterion = .mse) :
    (Random.total (Strategy.shares (s.impurities state g))).isFinite = true := by
  refine Strategy.isFinite_total_shares fun x hx hfinite => ?_
  obtain ⟨strengths, rfl⟩ := exists_split_of_mem hx
  rw [hcriterion] at hfinite ⊢
  exact Criterion.zero_le_mse_split_of_isFinite hfinite

theorem isFinite_total_of_subset
    (hw : s.limits.criterion = .gini → ∀ w ∈ weights s.subjects, AtMost w (2 ^ b))
    (hsubset : state.working ⊆ s.subjects)
    (hb : s.limits.criterion = .gini →
      2 * b + (min (s.impurities state g).length (2 ^ 53)).log2 ≤ 1020) :
    (Random.total (Strategy.shares (s.impurities state g))).isFinite = true := by
  cases hcriterion : s.limits.criterion with
  | gini =>
      refine isFinite_total_gini hcriterion (fun w hmem => ?_) (hb hcriterion)
      exact hw hcriterion w (List.map_subset _ hsubset hmem)
  | mse => exact isFinite_total_mse hcriterion

theorem total_of_unboundedWheel (h : (s.round state g).1 = .stopped .unboundedWheel) :
    (Random.total (Strategy.shares (s.impurities state g))).isFinite = false := by
  rw [round_eq] at h
  split at h
  · cases h
  · simp only [outcome] at h
    split at h
    · cases h
    · next hselected =>
        cases hstrategy : s.limits.strategy with
        | best =>
            rw [hstrategy, Strategy.select_best_eq] at hselected
            cases hlowest : Strategy.lowest _ <;> rw [hlowest] at hselected <;> cases hselected
        | roulette =>
            rw [hstrategy] at hselected
            exact unbounded_of_spin hselected
    · split at h
      · split at h <;> cases h
      · cases h

theorem stop_ne_unboundedWheel
    (hw : s.limits.criterion = .gini → ∀ w ∈ weights s.subjects, AtMost w (2 ^ b))
    (hb : s.limits.criterion = .gini → b ≤ 483) (g : G) :
    (s.learn g).1.stop ≠ .unboundedWheel := by
  intro hstop
  obtain ⟨state, hsubset, -, hend⟩ :=
    s.learn_ends (P := fun state => state.working ⊆ s.subjects) (List.Subset.refl _)
      (fun _ _ _ hsubset hgrown =>
        List.Subset.trans (working_subset_of_step (step_of_grown hgrown)) hsubset) g
  rw [hstop] at hend
  rcases hend with ⟨g', hround⟩ | hend
  · have hlog := log2_min_le (s.impurities state g').length
    have hfinite := isFinite_total_of_subset (g := g') hw hsubset fun hgini => by
      have := hb hgini
      omega
    cases hfinite.symm.trans (total_of_unboundedWheel hround)
  · rcases reason_of_endReached hend with h | h | h <;> cases h

/-- Under the second criterion every wheel of a search has a finite total. Under the first one the
weights, `2 ^ b` at most, have to leave room for their squares, eight times for each candidate; from
`2 ^ 53` candidates on the total does not grow any more. -/
theorem finite_wheels (space : SearchSpace) (store : Store) (limits : SearchLimits)
    (examples : List Fact) {b : ℕ}
    (hweights : limits.criterion = .gini → ∀ e ∈ examples, AtMost e.weight (2 ^ b)) (g : G) :
    let s := start space store limits examples
    (∀ states reason g', Run s (some g) states reason g' → ∀ state ∈ s.initial :: states,
      ∀ g₁ : Option G,
      (limits.criterion = .gini →
        2 * b + (min (s.impurities state g₁).length (2 ^ 53)).log2 ≤ 1020) →
      (Random.total (Strategy.shares (s.impurities state g₁))).isFinite = true ∧
        (s.round state g₁).1 ≠ .stopped .unboundedWheel) ∧
    ((limits.criterion = .gini → b ≤ 483) → (s.learn g).1.stop ≠ .unboundedWheel) := by
  intro s
  have hw : limits.criterion = .gini → ∀ w ∈ weights s.subjects, AtMost w (2 ^ b) := by
    intro hgini w hmem
    rw [weights_start] at hmem
    obtain ⟨e, he, rfl⟩ := List.mem_map.1 hmem
    exact hweights hgini e he
  refine ⟨fun states reason g' hrun state hstate g₁ hb => ?_,
    fun hb => stop_ne_unboundedWheel hw hb g⟩
  have hfinite := isFinite_total_of_subset hw (working_subset_of_run hrun state hstate) hb
  refine ⟨hfinite, fun hround => ?_⟩
  cases hfinite.symm.trans (total_of_unboundedWheel hround)

-- The float `2 ^ 483`.
theorem hasValue_two_pow_483 : HasValue (.ofBits 0x5E20000000000000) (2 ^ 483) := by
  have h : HasValue (.ofBits 0x5E20000000000000) (2 ^ (52 + 431 : ℤ)) :=
    hasValue_two_pow (by decide) (by decide) (by decide)
  have hexponent : (52 + 431 : ℤ) = (483 : ℕ) := rfl
  rwa [hexponent, zpow_natCast] at h

theorem finite_wheels_of_great_weights :
    let space : SearchSpace := ⟨"t", [⟨"t", [⟨.input, "x"⟩]⟩, ⟨"p", [⟨.input, "x"⟩]⟩],
      .ofList [("t", ["x"]), ("p", ["x"])], .empty⟩
    let store := Store.compile [⟨1.0, "p", ["a"]⟩, ⟨1.0, "p", ["b"]⟩, ⟨1.0, "p", ["c"]⟩]
    let limits : SearchLimits := ⟨none, none, 1, .gini, .roulette, false⟩
    let examples : List Fact :=
      [⟨2e145, "t", ["a"]⟩, ⟨2e145, "t", ["b"]⟩, ⟨2e145, "t", ["c"]⟩, ⟨-2e145, "t", ["d"]⟩]
    let s := start space store limits examples
    (∀ e ∈ examples, AtMost e.weight (2 ^ 483)) ∧
      (Random.total (Strategy.shares
        (s.impurities s.initial (some (⟨1⟩ : SplitMix))))).isFinite = true ∧
      (s.learn (⟨1⟩ : SplitMix)).1.stop ≠ .unboundedWheel := by
  intro space store limits examples s
  have hbits : ∀ e ∈ examples,
      Decimal.unsigned e.weight ≤ Decimal.unsigned (.ofBits 0x5E20000000000000) := by
    decide +kernel
  have hweights : ∀ e ∈ examples, AtMost e.weight (2 ^ 483) := fun e he =>
    atMost_of_unsigned_le (by positivity) hasValue_two_pow_483 (hbits e he)
  obtain ⟨states, reason, g', hrun, -⟩ := s.exists_run (⟨1⟩ : SplitMix)
  obtain ⟨hwheels, hstop⟩ :=
    finite_wheels space store limits examples (fun _ => hweights) (⟨1⟩ : SplitMix)
  obtain ⟨hfinite, -⟩ := hwheels states reason g' hrun s.initial List.mem_cons_self
    (some ⟨1⟩)
    fun _ => (Nat.add_le_add_left (log2_min_le _) _).trans (by decide)
  exact ⟨hweights, hfinite, hstop fun _ => le_rfl⟩

theorem infinite_wheel_of_greater_weights :
    let space : SearchSpace := ⟨"t", [⟨"t", [⟨.input, "x"⟩]⟩, ⟨"p", [⟨.input, "x"⟩]⟩],
      .ofList [("t", ["x"]), ("p", ["x"])], .empty⟩
    let store := Store.compile [⟨1.0, "p", ["a"]⟩, ⟨1.0, "p", ["b"]⟩, ⟨1.0, "p", ["c"]⟩]
    let limits : SearchLimits := ⟨none, none, 1, .gini, .roulette, false⟩
    let examples : List Fact :=
      [⟨9e153, "t", ["a"]⟩, ⟨9e153, "t", ["b"]⟩, ⟨9e153, "t", ["c"]⟩, ⟨0.0, "t", ["d"]⟩]
    let s := start space store limits examples
    let impurities := s.impurities s.initial (some (⟨1⟩ : SplitMix))
    (∀ e ∈ examples, e.weight.isFinite = true) ∧ (∀ x ∈ impurities, x.isFinite = true) ∧
      (∃ w ∈ Strategy.shares impurities, 0.0 < w) ∧
      (Random.total (Strategy.shares impurities)).isFinite = false ∧
      (s.learn (⟨1⟩ : SplitMix)).1.stop = .unboundedWheel := by
  decide +kernel

end RuleInduction.ClauseSearch
