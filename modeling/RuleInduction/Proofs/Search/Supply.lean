import Mathlib.Data.List.Chain
import RuleInduction.Proofs.Candidate.Admitted
import RuleInduction.Proofs.Search.Greedy
import RuleInduction.Random.Generator

namespace RuleInduction

namespace Slot

-- Which name is fresh does not matter: where an output could introduce one name it can introduce
-- another.
def Fillable (s : Surroundings) (slot : Slot) : Prop :=
  ∀ fresh, ∃ t, slot.Admits s fresh t

variable {s s' : Surroundings} {slot : Slot}

theorem Admits.fillable {fresh : String} {t : Term} (h : slot.Admits s fresh t) :
    slot.Fillable s := by
  intro fresh'
  cases h with
  | constant h => exact ⟨_, .constant h⟩
  | input h => exact ⟨_, .input h⟩
  | fresh h => exact ⟨_, .fresh h⟩
  | output h => exact ⟨_, .output h⟩
  | bodyOutput h hx => exact ⟨_, .bodyOutput h hx⟩

theorem Fillable.binds (h : slot.Fillable s) (hinput : slot.symbol = .input) :
    ∃ x, s.Binds slot.type x := by
  obtain ⟨t, ht⟩ := h ""
  cases ht with
  | input hx => exact ⟨_, hx⟩
  | fresh htakes => simp [takesName, hinput] at htakes
  | constant => cases hinput
  | output => cases hinput
  | bodyOutput => cases hinput

theorem Fillable.mono (h : slot.Fillable s) (hconstants : s.constants = s'.constants)
    (hbinds : ∀ type x, s.Binds type x → s'.Binds type x) : slot.Fillable s' := by
  intro fresh
  obtain ⟨t, ht⟩ := h fresh
  cases ht with
  | constant hv => exact ⟨_, .constant (hconstants ▸ hv)⟩
  | input hx => exact ⟨_, .input (hbinds _ _ hx)⟩
  | fresh htakes => exact ⟨_, .fresh htakes⟩
  | output => exact ⟨_, .fresh rfl⟩
  | bodyOutput => exact ⟨_, .fresh rfl⟩

end Slot

variable {s : Surroundings} {names : FreshNames}

theorem Fills.fillable {slots : List Slot} {ts : List Term} (h : Fills s names slots ts) :
    ∀ slot ∈ slots, slot.Fillable s := by
  induction h with
  | nil => exact fun slot hslot => absurd hslot List.not_mem_nil
  | cons first _ ih => exact List.forall_mem_cons.2 ⟨first.fillable, ih⟩

theorem exists_fills_of_fillable {slots : List Slot} (h : ∀ slot ∈ slots, slot.Fillable s)
    (names : FreshNames) : ∃ ts, Fills s names slots ts := by
  induction slots generalizing names with
  | nil => exact ⟨[], .nil⟩
  | cons slot slots ih =>
      obtain ⟨hslot, hslots⟩ := List.forall_mem_cons.1 h
      obtain ⟨t, ht⟩ := hslot names.next.1
      obtain ⟨ts, hts⟩ := ih hslots _
      exact ⟨t :: ts, .cons ht hts⟩

theorem Candidates.isEmpty_eq_false_iff {modes : List Mode} {allowed : Std.ExtTreeSet Predicate} :
    (generate modes allowed s names).isEmpty = false ↔
      ∃ m ∈ modes, m.predicate ∈ allowed ∧ ∀ slot ∈ m.slots, slot.Fillable s := by
  rw [Std.ExtTreeSet.isEmpty_eq_false_iff, Std.ExtTreeSet.eq_empty_iff_forall_not_mem,
    not_forall_not]
  constructor
  · rintro ⟨l, hl⟩
    obtain ⟨m, hm, hallowed, _, _, hfills⟩ := mem_generate.1 hl
    exact ⟨m, hm, hallowed, hfills.fillable⟩
  · rintro ⟨m, hm, hallowed, hslots⟩
    obtain ⟨ts, hfills⟩ := exists_fills_of_fillable hslots names
    have heligible := Mode.eligible_iff.2 fun slot hslot => (hslots slot hslot).binds
    exact ⟨⟨m.predicate, ts⟩, mem_generate.2 ⟨m, hm, hallowed, heligible, rfl, hfills⟩⟩

namespace ClauseSearch

variable {s : ClauseSearch} {state next : SearchState}

def Supplied (s : ClauseSearch) (state : SearchState) : Prop :=
  ∃ m ∈ s.space.modes, m.predicate ∈ s.predicates ∧
    ∀ slot ∈ m.slots, slot.Fillable (s.surroundings state.body)

theorem binds_of_step (h : s.Step state next) {type x : String}
    (hx : (s.surroundings state.body).Binds type x) : (s.surroundings next.body).Binds type x := by
  obtain ⟨l, _, rfl⟩ := h
  exact hx.imp id fun hbody => mem_bindBody.2 (Or.inl hbody)

theorem supplied_of_step (hstep : s.Step state next) (h : s.Supplied state) : s.Supplied next := by
  obtain ⟨m, hm, hp, hslots⟩ := h
  exact ⟨m, hm, hp, fun slot hslot =>
    (hslots slot hslot).mono rfl fun _ _ => binds_of_step hstep⟩

theorem supplied_of_accepts {l : Literal} (h : s.Accepts state l) : s.Supplied state := by
  obtain ⟨allowed, hallowed, hl⟩ := h.candidate
  obtain ⟨m, hm, hp, _, _, hfills⟩ := Candidates.mem_generate.1 hl
  exact ⟨m, hm, hallowed _ hp, hfills.fillable⟩

variable {G : Type} [RandomSource G]

theorem supplied_iff (hall : ∀ n, s.limits.maxPredicates = some n → s.predicates.length ≤ n)
    (state : SearchState) (g : Option G) :
    (s.candidates state (s.samplePredicates g).1).isEmpty = false ↔ s.Supplied state := by
  rw [samplePredicates_eq_of_le hall, candidates, Candidates.isEmpty_eq_false_iff]
  simp only [Std.ExtTreeSet.mem_ofList, List.contains_iff_mem]
  rfl

theorem pairwise_supplied {states : List SearchState}
    (h : List.IsChain s.Step (state :: states)) :
    (state :: states).Pairwise fun a b => s.Supplied a → s.Supplied b := by
  have : IsTrans SearchState fun a b => s.Supplied a → s.Supplied b := ⟨fun _ _ _ h h' => h' ∘ h⟩
  exact (h.imp fun _ _ => supplied_of_step).pairwise

-- What is accepted was a candidate, so only a state without literals may have none.
theorem supplied_of_grown {g : Option G} (h : (s.round state g).1 = .grown next) :
    s.Supplied next := by
  obtain ⟨l, hl, rfl⟩ := step_of_grown h
  exact supplied_of_step ⟨l, hl, rfl⟩ (supplied_of_accepts hl)

theorem clause_eq_nil_of_exhausted
    (hall : ∀ n, s.limits.maxPredicates = some n → s.predicates.length ≤ n) {g : G}
    (h : (s.learn g).1.stop = .exhausted) : (s.learn g).1.clause = [] := by
  obtain ⟨state, hsupplied, hclause, hend⟩ :=
    s.learn_ends (P := fun state => state.clause = [] ∨ s.Supplied state) (Or.inl rfl)
      (fun _ _ _ _ hgrown => Or.inr (supplied_of_grown hgrown)) g
  rw [h] at hend
  rcases hend with ⟨g', hround⟩ | hend
  · have hempty := exhausted_iff_isEmpty.1 hround
    refine hclause.trans (hsupplied.resolve_right fun hs => ?_)
    rw [(supplied_iff hall state g').2 hs] at hempty
    cases hempty
  · rcases reason_of_endReached hend with h | h | h <;> cases h

theorem exhausted_of_isEmpty
    (hall : ∀ n, s.limits.maxPredicates = some n → s.predicates.length ≤ n)
    (hlimit : s.limitReached? s.initial = none)
    (hempty : (s.candidates s.initial (.ofList s.predicates)).isEmpty = true) (g : G) :
    (s.learn g).1.stop = .exhausted := by
  rw [← samplePredicates_eq_of_le hall (some g), ← exhausted_iff_isEmpty] at hempty
  simp only [learn, hlimit, run_of_stopped (Prod.ext hempty rfl)]

theorem exhausted_before_first_literal (space : SearchSpace) (store : Store)
    (limits : SearchLimits) (examples : List Fact) (g : G)
    (hall : ∀ n, limits.maxPredicates = some n →
      (space.bodyPredicates limits.recursive).length ≤ n) :
    let s := start space store limits examples
    ((s.learn g).1.stop = .exhausted → (s.learn g).1.clause = []) ∧
    ∃ states reason g', Run s (some g) states reason g' ∧
      (s.learn g).1.clause = (states.getLastD s.initial).clause ∧ (s.learn g).1.stop = reason ∧
      (s.initial :: states).Pairwise fun a b => ∀ g₁ g₂ : Option G,
        (s.candidates a (s.samplePredicates g₁).1).isEmpty = false →
        (s.candidates b (s.samplePredicates g₂).1).isEmpty = false := by
  intro s
  obtain ⟨states, reason, g', hrun, heq⟩ := s.exists_run g
  refine ⟨clause_eq_nil_of_exhausted hall, states, reason, g', hrun, by rw [heq], by rw [heq], ?_⟩
  refine (pairwise_supplied hrun.isChain).imp fun hsupplied g₁ g₂ h => ?_
  exact (supplied_iff hall _ g₂).2 (hsupplied ((supplied_iff hall _ g₁).1 h))

-- No person is bound in the head, so neither of the two predicates has a candidate.
theorem exhausted_before_first_literal_of_owners :
    let space : SearchSpace := ⟨"flies", [⟨"flies", [⟨.input, "animal"⟩]⟩,
      ⟨"owns", [⟨.input, "person"⟩, ⟨.output, "animal"⟩]⟩, ⟨"knows", [⟨.input, "person"⟩]⟩],
      .ofList [("flies", ["animal"]), ("owns", ["person", "animal"]), ("knows", ["person"])],
      .empty⟩
    let store := Store.compile [⟨1.0, "owns", ["ann", "tweety"]⟩]
    let limits : SearchLimits := ⟨none, some 2, 1, .gini, .roulette, false⟩
    let examples : List Fact := [⟨1.0, "flies", ["tweety"]⟩, ⟨0.0, "flies", ["tom"]⟩]
    let s := start space store limits examples
    let c := (s.learn (⟨3⟩ : SplitMix)).1
    (∀ n, limits.maxPredicates = some n →
      (space.bodyPredicates limits.recursive).length ≤ n) ∧
      c.stop = .exhausted ∧ c.clause = [] := by
  intro space store limits examples s c
  have hall : ∀ n, limits.maxPredicates = some n →
      (space.bodyPredicates limits.recursive).length ≤ n := by
    intro n hn
    cases hn
    decide
  have hstop : c.stop = .exhausted :=
    exhausted_of_isEmpty (s := s) hall (by decide +kernel) (by decide +kernel) _
  exact ⟨hall, hstop, (exhausted_before_first_literal space store limits examples _ hall).1 hstop⟩

end ClauseSearch

end RuleInduction
