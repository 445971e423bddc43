import RuleInduction.Proofs.Background
import RuleInduction.Proofs.Candidate
import RuleInduction.Proofs.Search.LeaveOneOut
import RuleInduction.Proofs.Search.Run

namespace RuleInduction

theorem map_eq_of_forall₂ {α β γ : Type} {R : α → β → Prop} {f : α → γ} {g : β → γ} {xs : List α}
    {ys : List β} (h : List.Forall₂ R xs ys) (hfg : ∀ x y, R x y → f x = g y) :
    xs.map f = ys.map g := by
  rw [← List.forall₂_eq_eq_eq, List.forall₂_map_left_iff, List.forall₂_map_right_iff]
  exact h.imp hfg

theorem forall₂_filter_zip {α β γ : Type} {R : α → β → Prop} {p : γ → Bool} {xs : List α}
    {ys : List β} (h : List.Forall₂ R xs ys) (zs : List γ) :
    List.Forall₂ R (((xs.zip zs).filter fun e => p e.2).map Prod.fst)
      (((ys.zip zs).filter fun e => p e.2).map Prod.fst) := by
  induction h generalizing zs with
  | nil => exact .nil
  | @cons x y xs ys hxy _ ih =>
      cases zs with
      | nil => exact .nil
      | cons z zs =>
          by_cases hz : p z = true
          · simp only [List.zip_cons_cons, List.filter_cons, hz, if_true, List.map_cons]
            exact .cons hxy (ih zs)
          · simp only [List.zip_cons_cons, List.filter_cons, hz]
            exact ih zs

structure Subject.Alike (modes : List Mode) (e e' : Subject) : Prop where
  bindings : e.bindings = e'.bindings
  weight : e.weight = e'.weight
  view : e.view.Alike modes e'.view

structure ClauseSearch.Alike (s s' : ClauseSearch) : Prop where
  space : s.space = s'.space
  limits : s.limits = s'.limits
  head : s.head = s'.head
  names : s.names = s'.names
  hints : ∀ p, Mode.declares s.space.modes p = true → s.hints.get p = s'.hints.get p
  subjects : List.Forall₂ (Subject.Alike s.space.modes) s.subjects s'.subjects

structure SearchState.Alike (modes : List Mode) (state state' : SearchState) : Prop where
  clause : state.clause = state'.clause
  declared : state.clause.Declared modes
  leaves : state.leaves = state'.leaves
  working : List.Forall₂ (Subject.Alike modes) state.working state'.working
  impurity : state.impurity = state'.impurity
  body : state.body = state'.body
  names : state.names = state'.names

inductive Round.Alike (modes : List Mode) : Round → Round → Prop
  | stopped {reason : StopReason} : Alike modes (.stopped reason) (.stopped reason)
  | grown {state state' : SearchState} (h : state.Alike modes state') :
      Alike modes (.grown state) (.grown state')

namespace ClauseSearch

theorem weights_eq {modes : List Mode} {subjects subjects' : List Subject}
    (h : List.Forall₂ (Subject.Alike modes) subjects subjects') :
    weights subjects = weights subjects' :=
  map_eq_of_forall₂ h fun _ _ he => he.weight

theorem lastStrength_eq {modes : List Mode} {c : Clause} (hc : c.Declared modes) {e e' : Subject}
    (h : e.Alike modes e') : lastStrength c e = lastStrength c e' := by
  rw [lastStrength, lastStrength, h.bindings, h.view.binaryStrengths hc]

theorem declared_append {modes : List Mode} {c : Clause} {l : Literal} (hc : c.Declared modes)
    (hl : Mode.declares modes l.predicate = true) : Clause.Declared modes (c ++ [l]) := by
  intro m hm
  rcases List.mem_append.1 hm with hm | hm
  · exact hc m hm
  · rwa [List.mem_singleton.1 hm]

theorem hints_get_eq {modes : List Mode} {store store' : Store} (h : store.Alike modes store')
    {p : Predicate} (hp : Mode.declares modes p = true) :
    store.hints.get p = store'.hints.get p := by
  have hrel := h p hp
  simp only [Store.relation?] at hrel
  simp only [Hints.get, Store.hints, Std.ExtTreeMap.getElem?_map]
  generalize store.relations[p]? = rows?, store'.relations[p]? = rows'? at hrel ⊢
  cases hrel with
  | none => rfl
  | some hperm =>
      have hlen := hperm.length_eq
      rw [tuples, tuples, List.length_map, List.length_map] at hlen
      simp only [Option.map_some, hlen]

theorem ordered_congr {hints hints' : Hints} {candidates : Candidates}
    (h : ∀ l ∈ candidates, hints.get l.predicate = hints'.get l.predicate) :
    candidates.ordered hints = candidates.ordered hints' := by
  have hcompare : ∀ l ∈ candidates.toList, ∀ m ∈ candidates.toList,
      (l.searchCompare hints m).isLE = (l.searchCompare hints' m).isLE := by
    intro l hl m hm
    simp only [Literal.searchCompare, compareLex, compareOn, h l (Std.ExtTreeSet.mem_toList.1 hl),
      h m (Std.ExtTreeSet.mem_toList.1 hm)]
  have hsort := List.map_mergeSort (r := fun l m : Literal => (l.searchCompare hints m).isLE)
    (s := fun l m : Literal => (l.searchCompare hints' m).isLE) (f := id) hcompare
  rwa [List.map_id, List.map_id] at hsort

section TwoRuns

variable {s s' : ClauseSearch} {state state' : SearchState} {l : Literal}

theorem declares_of_mem_candidates {allowed : Std.ExtTreeSet Predicate}
    (hl : l ∈ s.candidates state allowed) : Mode.declares s.space.modes l.predicate = true := by
  obtain ⟨m, hm, _, _, hp, _⟩ := Candidates.mem_generate.1 hl
  exact Mode.declares_iff.2 ⟨m, hm, hp.symm⟩

theorem declared_of_step {next : SearchState} (hc : state.clause.Declared s.space.modes)
    (hstep : s.Step state next) : next.clause.Declared s.space.modes := by
  obtain ⟨l, hl, rfl⟩ := hstep
  obtain ⟨_, _, hmem⟩ := hl.candidate
  exact declared_append hc (declares_of_mem_candidates hmem)

theorem declared_learn {G : Type} [RandomSource G] (s : ClauseSearch) (g : G) :
    (s.learn g).1.clause.Declared s.space.modes := by
  obtain ⟨state, hdeclared, hclause, _⟩ :=
    learn_invariant (P := fun state => state.clause.Declared s.space.modes)
      (fun _ hl => absurd hl List.not_mem_nil) (fun _ _ => declared_of_step) g
  rwa [hclause]

theorem headScope_congr (h : s.Alike s') : s.headScope = s'.headScope := by
  rw [headScope, headScope, h.space, h.head]

theorem candidates_congr (h : s.Alike s') (hstate : state.Alike s.space.modes state')
    (allowed : Std.ExtTreeSet Predicate) :
    s.candidates state allowed = s'.candidates state' allowed := by
  rw [candidates, candidates, headScope_congr h, h.space, hstate.body, hstate.names]

theorem score_congr (h : s.Alike s') (hstate : state.Alike s.space.modes state')
    (hl : Mode.declares s.space.modes l.predicate = true) :
    s.score state l = s'.score state' l := by
  have hstrengths : state.working.map (lastStrength (state.clause ++ [l])) =
      state'.working.map (lastStrength (state.clause ++ [l])) :=
    map_eq_of_forall₂ hstate.working fun _ _ => lastStrength_eq (declared_append hstate.declared hl)
  simp only [score, hstrengths, weights_eq hstate.working, ← hstate.clause, h.limits]

theorem accept_alike (h : s.Alike s') (hstate : state.Alike s.space.modes state')
    (hl : Mode.declares s.space.modes l.predicate = true) :
    SearchState.Alike s.space.modes (s.accept state (s.score state l))
      (s'.accept state' (s'.score state' l)) := by
  rw [← score_congr h hstate hl]
  refine ⟨?_, declared_append hstate.declared hl, ?_, ?_, rfl, ?_, ?_⟩
  · simp only [accept, hstate.clause]
  · simp only [accept, hstate.leaves, weights_eq hstate.working]
  · exact forall₂_filter_zip (p := fun x => decide (x > 0.0)) hstate.working _
  · simp only [accept, bindBody, headScope_congr h, hstate.body, h.space]
  · simp only [accept, hstate.names]

variable {G : Type} [RandomSource G]

theorem samplePredicates_congr (h : s.Alike s') (g : Option G) :
    s.samplePredicates g = s'.samplePredicates g := by
  simp only [samplePredicates, predicates, h.space, h.limits]

theorem considered_congr (h : s.Alike s') (hstate : state.Alike s.space.modes state') (g : Option G) :
    s.considered state g = s'.considered state' g := by
  have hordered (allowed : Std.ExtTreeSet Predicate) :
      (s.candidates state allowed).ordered s.hints =
        (s'.candidates state' allowed).ordered s'.hints := by
    rw [← candidates_congr h hstate]
    exact ordered_congr fun l hl => h.hints _ (declares_of_mem_candidates hl)
  rw [considered, considered, ← samplePredicates_congr h, hordered]

theorem scored_congr (h : s.Alike s') (hstate : state.Alike s.space.modes state') (g : Option G) :
    (s.considered state g).1.map (s.score state) =
      (s'.considered state' g).1.map (s'.score state') := by
  rw [← considered_congr h hstate]
  refine List.map_congr_left fun l hl => score_congr h hstate ?_
  exact declares_of_mem_candidates (mem_considered.1 hl)

theorem outcome_alike (h : s.Alike s') (hstate : state.Alike s.space.modes state')
    {scored : List Scored} (hscored : ∀ c ∈ scored, ∃ l : Literal, s.score state l = c ∧
      Mode.declares s.space.modes l.predicate = true) (selection : Selection) :
    Round.Alike s.space.modes (s.outcome state scored selection)
      (s'.outcome state' scored selection) := by
  cases selection with
  | declined => exact .stopped
  | unbounded => exact .stopped
  | chosen i =>
      simp only [outcome, hstate.impurity]
      cases hc : scored[i]? with
      | none => exact .stopped
      | some c =>
          obtain ⟨l, rfl, hl⟩ := hscored c (List.mem_of_getElem? hc)
          simp only
          split
          · exact .stopped
          · refine .grown ?_
            have haccept := accept_alike h hstate hl
            rwa [← score_congr h hstate hl] at haccept

theorem round_alike (h : s.Alike s') (hstate : state.Alike s.space.modes state') {g g' : Option G}
    {r : Round} (hround : s.round state g = (r, g')) :
    ∃ r', Round.Alike s.space.modes r r' ∧ s'.round state' g = (r', g') := by
  have hscored := scored_congr h hstate g
  rw [round_eq] at hround
  rw [round_eq, ← samplePredicates_congr h, ← candidates_congr h hstate, ← hscored,
    ← considered_congr h hstate, ← h.limits]
  by_cases hempty : (s.candidates state (s.samplePredicates g).1).isEmpty = true
  · rw [if_pos hempty] at hround ⊢
    cases hround
    exact ⟨_, .stopped, rfl⟩
  · rw [if_neg hempty] at hround ⊢
    cases hround
    refine ⟨_, outcome_alike h hstate (fun c hc => ?_) _, rfl⟩
    obtain ⟨l, hl, rfl⟩ := List.mem_map.1 hc
    exact ⟨l, rfl, declares_of_mem_candidates (mem_considered.1 hl)⟩

theorem limitReached?_congr (h : s.Alike s') (hstate : state.Alike s.space.modes state') :
    s.limitReached? state = s'.limitReached? state' := by
  simp only [limitReached?, h.limits, hstate.clause, hstate.working.length_eq]

theorem endReached?_congr (h : s.Alike s') (hstate : state.Alike s.space.modes state') :
    s.endReached? state = s'.endReached? state' := by
  simp only [endReached?, limitReached?_congr h hstate, weights_eq hstate.working]

theorem run_alike (h : s.Alike s') (hstate : state.Alike s.space.modes state') (g : Option G) :
    SearchState.Alike s.space.modes (s.run state g).1 (s'.run state' g).1 ∧
      (s.run state g).2 = (s'.run state' g).2 := by
  fun_induction s.run state g generalizing state' with
  | case1 state g reason g' hround =>
      obtain ⟨r, hr, hround'⟩ := round_alike h hstate hround
      cases hr
      rw [run_of_stopped hround']
      exact ⟨hstate, rfl⟩
  | case2 state g next g' hround reason he =>
      obtain ⟨r, hr, hround'⟩ := round_alike h hstate hround
      cases hr with
      | grown hnext =>
          rw [run_of_grown hround', ← endReached?_congr h hnext, he]
          exact ⟨hnext, rfl⟩
  | case3 state g next g' hround he ih =>
      obtain ⟨r, hr, hround'⟩ := round_alike h hstate hround
      cases hr with
      | grown hnext =>
          rw [run_of_grown hround', ← endReached?_congr h hnext, he]
          exact ih hnext

theorem initial_alike (h : s.Alike s') : SearchState.Alike s.space.modes s.initial s'.initial where
  clause := rfl
  declared := fun _ hl => absurd hl List.not_mem_nil
  leaves := rfl
  working := h.subjects
  impurity := by simp only [initial, h.limits, weights_eq h.subjects]
  body := rfl
  names := h.names

theorem learn_congr (h : s.Alike s') (g : G) : s.learn g = s'.learn g := by
  have hinitial := initial_alike h
  have hprior : s.prior = s'.prior := congrArg mean (weights_eq h.subjects)
  simp only [learn, ← limitReached?_congr h hinitial, h.head, hprior]
  split
  · simp only [hinitial.clause, hinitial.leaves]
  · obtain ⟨hrun, hrest⟩ := run_alike h hinitial (some g)
    simp only [hrun.clause, hrun.leaves, hrest]

end TwoRuns

section Start

variable {space : SearchSpace} {store store' : Store} {limits : SearchLimits} {examples : List Fact}

theorem trainingStore_alike {modes : List Mode} (h : store.Alike modes store') :
    (trainingStore store limits examples).Alike modes (trainingStore store' limits examples) := by
  rw [trainingStore, trainingStore]
  split
  · exact h.merge _
  · exact h

-- The rows of the background may stand in another order in the two stores, but the hidden row comes
-- after all of them, so it is the same example's row in both.
theorem hidingView_alike (h : store.Alike space.modes store')
    (htarget : Mode.declares space.modes space.target = true)
    (hexamples : ∀ e ∈ examples, e.predicate = space.target) (hrec : limits.recursive = true)
    {i : Nat} {e : Fact} (he : examples[i]? = some e) (hw : e.hasWeight = true) :
    View.Alike space.modes
      ((trainingStore store limits examples).viewWithout
        ⟨space.target, (store.rows space.target).length + (examples.take i).countP Fact.hasWeight⟩)
      ((trainingStore store' limits examples).viewWithout ⟨space.target,
        (store'.rows space.target).length + (examples.take i).countP Fact.hasWeight⟩) := by
  intro p hp
  by_cases hpt : p = space.target
  · rw [hpt, rows_of_own_row hrec hexamples he hw, rows_of_own_row hrec hexamples he hw,
      tuples_append, tuples_append]
    exact (h.tuples_rows htarget).append_right _
  · rw [View.rows, View.rows, View.relation?_viewWithout_of_ne (Ne.symm hpt),
      View.relation?_viewWithout_of_ne (Ne.symm hpt)]
    exact (trainingStore_alike h).tuples_rows hp

theorem views_alike (limits : SearchLimits) (h : store.Alike space.modes store')
    (htarget : Mode.declares space.modes space.target = true)
    (hexamples : ∀ e ∈ examples, e.predicate = space.target) :
    List.Forall₂ (View.Alike space.modes) (views space.target store limits examples)
      (views space.target store' limits examples) := by
  rw [List.forall₂_iff_get]
  refine ⟨(length_views _ _ _ _).trans (length_views _ _ _ _).symm, fun i hi hi' => ?_⟩
  have hlt : i < examples.length := length_views store limits examples space.target ▸ hi
  have he := List.getElem?_eq_getElem hlt
  have hget := List.getElem?_eq_getElem hi
  have hget' := List.getElem?_eq_getElem hi'
  rw [getElem?_views he, Option.some.injEq] at hget hget'
  rw [List.get_eq_getElem, List.get_eq_getElem, ← hget, ← hget']
  split
  · next hhidden =>
      rw [Bool.and_eq_true] at hhidden
      exact hidingView_alike h htarget hexamples hhidden.1 he hhidden.2
  · exact (trainingStore_alike h).view

theorem subjects_alike {modes : List Mode} {vs vs' : List View}
    (h : List.Forall₂ (View.Alike modes) vs vs') (head : List String) (examples : List Fact) :
    List.Forall₂ (Subject.Alike modes)
      (List.zipWith (fun e view => ⟨view, .ofHead head e.arguments, e.weight⟩) examples vs)
      (List.zipWith (fun e view => ⟨view, .ofHead head e.arguments, e.weight⟩) examples vs') := by
  induction h generalizing examples with
  | nil => cases examples <;> exact .nil
  | cons hv _ ih =>
      cases examples with
      | nil => exact .nil
      | cons e examples => exact .cons ⟨rfl, rfl, hv⟩ (ih examples)

theorem start_alike (limits : SearchLimits) (h : store.Alike space.modes store')
    (htarget : Mode.declares space.modes space.target = true)
    (hexamples : ∀ e ∈ examples, e.predicate = space.target) :
    (start space store limits examples).Alike (start space store' limits examples) where
  space := rfl
  limits := rfl
  head := rfl
  names := rfl
  hints := fun _ hp => hints_get_eq (trainingStore_alike h) hp
  subjects := subjects_alike (views_alike limits h htarget hexamples) _ examples

end Start

end ClauseSearch

end RuleInduction
