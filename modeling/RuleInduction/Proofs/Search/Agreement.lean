import RuleInduction.Proofs.Matching.Progress
import RuleInduction.Proofs.Search.Run
import RuleInduction.Proofs.Search.Subjects
import RuleInduction.Random.Generator

namespace RuleInduction

namespace Subject

def progress (e : Subject) (c : Clause) : Nat :=
  RuleInduction.progress e.view e.bindings c

def firstFailing? (e : Subject) (c : Clause) : Option Nat :=
  RuleInduction.firstFailing? e.view e.bindings c

theorem progress_le (e : Subject) (c : Clause) : e.progress c ≤ c.length :=
  RuleInduction.progress_le e.view e.bindings c

theorem progress_eq_min (e : Subject) (c : Clause) (l : Literal) :
    e.progress c = min c.length (e.progress (c ++ [l])) :=
  RuleInduction.progress_eq_min e.view e.bindings c [l]

theorem firstFailing?_eq_some {e : Subject} {c : Clause} {k : Nat} :
    e.firstFailing? c = some k ↔ e.progress c = k ∧ k < c.length := by
  simp only [firstFailing?, RuleInduction.firstFailing?, progress]
  split
  · next h =>
      simp only [Option.some.injEq]
      exact ⟨fun hk => ⟨hk, hk ▸ h⟩, And.left⟩
  · next h =>
      simp only [reduceCtorEq, false_iff]
      rintro ⟨rfl, hk⟩
      exact h hk

theorem firstFailing?_eq_none {e : Subject} {c : Clause} :
    e.firstFailing? c = none ↔ e.progress c = c.length := by
  have hle := e.progress_le c
  simp only [progress] at hle ⊢
  simp only [firstFailing?, RuleInduction.firstFailing?]
  split
  · simp only [reduceCtorEq, false_iff]
    omega
  · exact iff_of_true rfl (by omega)

theorem lastStrength_iff {e : Subject} {c : Clause} {l : Literal} :
    ClauseSearch.lastStrength (c ++ [l]) e > 0.0 ↔ e.progress (c ++ [l]) = c.length + 1 :=
  getLastD_binaryStrengths e.view e.bindings c l

end Subject

namespace ClauseSearch

variable {s : ClauseSearch} {state next : SearchState}

def leafAt (s : ClauseSearch) (c : Clause) (k : Nat) : Leaf where
  matched := mean (weights (s.subjects.filter fun e => k < e.progress c))
  unmatched := mean (weights (s.subjects.filter fun e => e.progress c = k))

/-- The invariant of the search: in work are the examples that the whole clause matches, and the
leaves are as if all examples were matched against the whole clause. -/
structure Accounts (s : ClauseSearch) (state : SearchState) : Prop where
  working : state.working =
    s.subjects.filter fun e => e.progress state.clause = state.clause.length
  leaves : state.leaves = (List.range state.clause.length).map (s.leafAt state.clause)

theorem accounts_initial : Accounts s s.initial where
  working := by
    refine (List.filter_eq_self.2 fun e _ => ?_).symm
    exact decide_eq_true (Nat.le_zero.1 (e.progress_le []))
  leaves := rfl

-- An example that fails before the end of a clause fails there after one more literal too.
theorem leafAt_append {c : Clause} {k : Nat} (hk : k < c.length) (l : Literal) :
    s.leafAt (c ++ [l]) k = s.leafAt c k := by
  have hmatched (e : Subject) : k < e.progress (c ++ [l]) ↔ k < e.progress c := by
    have hmin := e.progress_eq_min c l
    omega
  have hunmatched (e : Subject) : e.progress (c ++ [l]) = k ↔ e.progress c = k := by
    have hmin := e.progress_eq_min c l
    omega
  simp only [leafAt, hmatched, hunmatched]

-- In work are the examples that the clause matches, which is to say those that pass all of it with
-- one more literal too, or fail at that literal.
theorem filter_working (h : Accounts s state) (l : Literal) {p q : Subject → Bool}
    (hpq : ∀ e : Subject, q e = true ↔
      state.clause.length ≤ e.progress (state.clause ++ [l]) ∧ p e = true) :
    state.working.filter p = s.subjects.filter q := by
  rw [h.working, List.filter_filter]
  refine List.filter_congr fun e _ => ?_
  have hmin := e.progress_eq_min state.clause l
  have hle : e.progress state.clause = state.clause.length ↔
      state.clause.length ≤ e.progress (state.clause ++ [l]) := by omega
  rw [Bool.eq_iff_iff, hpq, Bool.and_eq_true, decide_eq_true_eq, hle, and_comm]

theorem matchedSide_of_accounts (h : Accounts s state) (l : Literal) :
    matchedSide state (state.clause ++ [l]) = s.subjects.filter fun e =>
      state.clause.length < e.progress (state.clause ++ [l]) := by
  refine filter_working h l fun e => ?_
  have hle := e.progress_le (state.clause ++ [l])
  rw [List.length_append, List.length_singleton] at hle
  simp only [decide_eq_true_eq, Subject.lastStrength_iff]
  omega

theorem unmatchedSide_of_accounts (h : Accounts s state) (l : Literal) :
    unmatchedSide state (state.clause ++ [l]) = s.subjects.filter fun e =>
      e.progress (state.clause ++ [l]) = state.clause.length := by
  refine filter_working h l fun e => ?_
  have hle := e.progress_le (state.clause ++ [l])
  rw [List.length_append, List.length_singleton] at hle
  simp only [Bool.not_eq_true', decide_eq_true_eq, decide_eq_false_iff_not,
    Subject.lastStrength_iff]
  omega

theorem accounts_of_step (h : Accounts s state) (hstep : s.Step state next) :
    Accounts s next := by
  obtain ⟨l, _, rfl⟩ := hstep
  have hlen : (state.clause ++ [l]).length = state.clause.length + 1 := List.length_append
  have hm := matchedSide_of_accounts h l
  refine ⟨?_, ?_⟩
  · rw [working_accept, clause_accept, hm, hlen]
    refine List.filter_congr fun e _ => ?_
    have hle := e.progress_le (state.clause ++ [l])
    simp only [decide_eq_decide]
    omega
  · have hold : (List.range state.clause.length).map (s.leafAt (state.clause ++ [l])) =
        (List.range state.clause.length).map (s.leafAt state.clause) :=
      List.map_congr_left fun k hk => leafAt_append (List.mem_range.1 hk) l
    rw [leaves_accept, clause_accept, hm, unmatchedSide_of_accounts h l, hlen, List.range_succ,
      List.map_append, hold, ← h.leaves]
    rfl

theorem getElem?_leafAt {c : Clause} {k : Nat} (hk : k < c.length) :
    ((List.range c.length).map (s.leafAt c))[k]? = some (s.leafAt c k) := by
  rw [List.getElem?_map, List.getElem?_range hk]
  rfl

theorem getLast?_leafAt {c : Clause} {n : Nat} (hn : c.length = n + 1) :
    ((List.range c.length).map (s.leafAt c)).getLast? = some (s.leafAt c n) := by
  rw [hn, List.range_succ, List.map_append]
  exact List.getLast?_concat

theorem leafValue_of_leaves {c : LearnedClause} (hprior : c.prior = s.prior)
    (hleaves : c.leaves = (List.range c.clause.length).map (s.leafAt c.clause)) (e : Subject) :
    c.leafValue (binaryStrengths e.view e.bindings c.clause) = mean (weights
      (s.subjects.filter fun f => f.firstFailing? c.clause = e.firstFailing? c.clause)) := by
  have hfail : RuleInduction.firstFailing? e.view e.bindings c.clause = e.firstFailing? c.clause :=
    rfl
  rw [LearnedClause.leafValue, findIdx?_binaryStrengths, hfail]
  cases he : e.firstFailing? c.clause with
  | some k =>
      have hk := (Subject.firstFailing?_eq_some.1 he).2
      simp only [hleaves, getElem?_leafAt hk, Subject.firstFailing?_eq_some, hk, and_true]
      rfl
  | none =>
      simp only [Subject.firstFailing?_eq_none]
      cases hn : c.clause.length with
      | zero =>
          have hall : ∀ f ∈ s.subjects, decide (f.progress c.clause = 0) = true := fun f _ =>
            decide_eq_true (Nat.le_zero.1 (hn ▸ f.progress_le c.clause))
          rw [hleaves, hn, List.filter_eq_self.2 hall]
          exact hprior
      | succ n =>
          have hpass (f : Subject) : n < f.progress c.clause ↔ f.progress c.clause = n + 1 := by
            have hle := f.progress_le c.clause
            omega
          rw [hleaves, getLast?_leafAt hn]
          simp only [Option.map_some, Option.getD_some, leafAt, hpass]

end ClauseSearch

def LearnedClause.firstFailing? (c : LearnedClause) (v : View) (f : Fact) : Option Nat :=
  RuleInduction.firstFailing? v (c.headBindings f) c.clause

namespace ClauseSearch

variable {G : Type} [RandomSource G]

theorem leafValue_learn (space : SearchSpace) (store : Store) (limits : SearchLimits)
    (examples : List Fact) (g : G) (h : limits.recursive = false) :
    let c := ((start space store limits examples).learn g).1
    c.leaves.length = c.clause.length ∧
    (∀ e : Fact, c.leafValue (c.binary store.view e) = mean ((examples.filter fun f =>
      c.firstFailing? store.view f = c.firstFailing? store.view e).map Fact.weight)) ∧
    c.prior = mean (examples.map Fact.weight) ∧
    (c.clause = [] → ∀ e : Fact, c.leafValue (c.binary store.view e) = c.prior) := by
  intro c
  obtain ⟨state, hacc, hclause, hleaves⟩ :=
    learn_invariant (s := start space store limits examples) (P := Accounts _) accounts_initial
      (fun _ _ => accounts_of_step) g
  have hprior : c.prior = mean (examples.map Fact.weight) := prior_learn space store limits examples g
  have hleaves' : c.leaves =
      (List.range c.clause.length).map ((start space store limits examples).leafAt c.clause) := by
    rw [hleaves, hclause, hacc.leaves]
  refine ⟨by rw [hleaves', List.length_map, List.length_range], fun e => ?_, hprior, fun hc e => ?_⟩
  · have := leafValue_of_leaves rfl hleaves' ⟨store.view, c.headBindings e, e.weight⟩
    rw [subjects_start space store limits examples h, List.filter_map, weights,
      List.map_map] at this
    exact this
  · have hbinary : c.binary store.view e = [] := by
      rw [LearnedClause.binary, hc]
      rfl
    rw [LearnedClause.leafValue, hbinary, hleaves', hc]
    rfl

theorem leafValue_learn_birds :
    let space : SearchSpace := ⟨"flies",
      [⟨"flies", [⟨.input, "animal"⟩]⟩, ⟨"bird", [⟨.input, "animal"⟩]⟩],
      .ofList [("flies", ["animal"]), ("bird", ["animal"])], .empty⟩
    let store := Store.compile [⟨1.0, "bird", ["tweety"]⟩, ⟨1.0, "bird", ["polly"]⟩]
    let limits : SearchLimits := ⟨none, none, 1, .mse, .best, false⟩
    let examples : List Fact :=
      [⟨3.0, "flies", ["tweety"]⟩, ⟨0.0, "flies", ["tom"]⟩, ⟨1.0, "flies", ["polly"]⟩]
    let c := ((start space store limits examples).learn (⟨3⟩ : SplitMix)).1
    limits.recursive = false ∧ c.clause = [⟨"bird", [.var "A"]⟩] ∧ c.leaves.length = 1 ∧
      c.leafValue (c.binary store.view ⟨3.0, "flies", ["tweety"]⟩) = mean [3.0, 1.0] := by
  refine ⟨rfl, by decide +kernel, ?_, ?_⟩
  · exact (leafValue_learn _ _ _ _ _ rfl).1.trans (by decide +kernel)
  · exact ((leafValue_learn _ _ _ _ _ rfl).2.1 _).trans (congrArg mean (by decide +kernel))

end ClauseSearch

end RuleInduction
