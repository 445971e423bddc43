import RuleInduction.Proofs.Average
import RuleInduction.Proofs.Learner.Attempts
import RuleInduction.Proofs.Search.Subjects

namespace RuleInduction

theorem Task.inUnit_truth (weight : Float) : InUnit (Task.classification.truth weight) := by
  rw [Task.truth]
  split <;> decide

namespace LearnedClause

structure InUnit (c : LearnedClause) : Prop where
  prior : RuleInduction.InUnit c.prior
  matched : ∀ leaf ∈ c.leaves, RuleInduction.InUnit leaf.matched
  unmatched : ∀ leaf ∈ c.leaves, RuleInduction.InUnit leaf.unmatched

theorem InUnit.leafValue {c : LearnedClause} (h : c.InUnit) (strengths : List Float) :
    RuleInduction.InUnit (c.leafValue strengths) := by
  rw [LearnedClause.leafValue]
  split
  · next k _ =>
      cases hleaf : c.leaves[k]? with
      | none => exact h.prior
      | some leaf => exact h.unmatched leaf (List.mem_of_getElem? hleaf)
  · cases hleaf : c.leaves.getLast? with
    | none => exact h.prior
    | some leaf => exact h.matched leaf (List.mem_of_getLast? hleaf)

end LearnedClause

theorem Rules.inUnit_score {rules : Rules} (h : ∀ c ∈ rules.clauses, c.InUnit)
    (hlen : rules.clauses.length ≤ 2 ^ 53) (v : View) (f : Fact) : InUnit (rules.score v f) := by
  rw [score]
  by_cases hnil : rules.clauses = []
  · have hzero : InUnit (sum [] / Float.ofNat 1) := by decide
    rw [hnil]
    exact hzero
  · have hvalues : ∀ x ∈ rules.clauses.map fun c => c.leafValue (c.binary v f), InUnit x := by
      intro x hx
      obtain ⟨c, hc, rfl⟩ := List.mem_map.1 hx
      exact (h c hc).leafValue _
    have hmean := inUnit_mean hvalues (by rwa [List.length_map])
    rw [mean_of_ne_nil (mt List.map_eq_nil_iff.1 hnil), count, List.length_map] at hmean
    rwa [Nat.max_eq_left (List.length_pos_of_ne_nil hnil)]

namespace ClauseSearch

variable {G : Type} [RandomSource G]

section Search

variable {s : ClauseSearch} (hweights : ∀ e ∈ s.subjects, InUnit e.weight)
  (hlen : s.subjects.length ≤ 2 ^ 53)

include hweights hlen

theorem inUnit_mean_weights {subjects : List Subject} (h : subjects.Sublist s.subjects) :
    InUnit (mean (weights subjects)) := by
  refine inUnit_mean ?_ ?_
  · intro x hx
    obtain ⟨e, he, rfl⟩ := List.mem_map.1 hx
    exact hweights e (h.subset he)
  · rw [weights, List.length_map]
    exact h.length_le.trans hlen

-- The leaves of a state are means over sides of examples that were still in work, all of them taken
-- from those of the search.
structure LeavesInUnit (s : ClauseSearch) (state : SearchState) : Prop where
  working : state.working.Sublist s.subjects
  matched : ∀ leaf ∈ state.leaves, InUnit leaf.matched
  unmatched : ∀ leaf ∈ state.leaves, InUnit leaf.unmatched

theorem leavesInUnit_accept {state : SearchState} {l : Literal} (h : s.LeavesInUnit state) :
    s.LeavesInUnit (s.accept state (s.score state l)) := by
  have hm : (matchedSide state (state.clause ++ [l])).Sublist s.subjects :=
    List.filter_sublist.trans h.working
  have hu : (unmatchedSide state (state.clause ++ [l])).Sublist s.subjects :=
    List.filter_sublist.trans h.working
  refine ⟨working_accept ▸ hm, ?_, ?_⟩ <;> rw [leaves_accept, List.forall_mem_append]
  · exact ⟨h.matched, List.forall_mem_singleton.2 (inUnit_mean_weights hweights hlen hm)⟩
  · exact ⟨h.unmatched, List.forall_mem_singleton.2 (inUnit_mean_weights hweights hlen hu)⟩

theorem inUnit_learn (g : G) : (s.learn g).1.InUnit := by
  have hinit : s.LeavesInUnit s.initial :=
    ⟨List.Sublist.refl _, List.forall_mem_nil _, List.forall_mem_nil _⟩
  obtain ⟨state, h, -, hleaves⟩ := learn_invariant hinit
    (fun a b ha ⟨l, _, hb⟩ => hb ▸ leavesInUnit_accept hweights hlen ha) g
  refine ⟨?_, hleaves ▸ h.matched, hleaves ▸ h.unmatched⟩
  obtain ⟨states, reason, g', -, heq⟩ := s.exists_run g
  rw [heq]
  exact inUnit_mean_weights hweights hlen (List.Sublist.refl _)

end Search

theorem inUnit_learn_start (space : SearchSpace) (store : Store) (limits : SearchLimits)
    {examples : List Fact} (hweights : ∀ e ∈ examples, InUnit e.weight)
    (hlen : examples.length ≤ 2 ^ 53) (g : G) :
    ((start space store limits examples).learn g).1.InUnit := by
  have hstart := weights_start space store limits examples
  refine inUnit_learn (fun e he => ?_) ?_ g
  · have hmem : e.weight ∈ weights (start space store limits examples).subjects :=
      List.mem_map_of_mem he
    rw [hstart] at hmem
    obtain ⟨d, hd, heq⟩ := List.mem_map.1 hmem
    exact heq ▸ hweights d hd
  · have hlength := congrArg List.length hstart
    rw [weights, List.length_map, List.length_map] at hlength
    exact hlength.trans_le hlen

end ClauseSearch

theorem Problem.inUnit_learnClause {G : Type} [RandomSource G] {p : Problem}
    (hweights : ∀ e ∈ p.examples, InUnit e.weight) (hlen : p.examples.length ≤ 2 ^ 53) {g g' : G}
    {c : LearnedClause} (h : p.learnClause g = some (c, g')) : c.InUnit := by
  obtain ⟨g₁, rfl⟩ := sample_of_learnClause h
  have hsub := Random.subsequence_sublist p.examples p.settings.sampleSize g
  exact ClauseSearch.inUnit_learn_start _ _ _ (fun e he => hweights e (hsub.subset he))
    (hsub.length_le.trans hlen) _

namespace Learner

variable {G : Type} [RandomSource G] {l : Learner} {examples background : List Fact} {g : G}
  {rules : Rules}

theorem inUnit_fit (htask : l.task = .classification) (hexamples : examples.length ≤ 2 ^ 53)
    (hfit : (l.fit examples background g).1 = .learned rules) :
    (∀ c ∈ rules.clauses, c.InUnit) ∧ rules.clauses.length = l.settings.clauses := by
  obtain ⟨p, cs, g', hposes, hensemble, rfl⟩ := poses_of_learned hfit
  refine ⟨fun c hc => ?_, (hensemble.length_eq cs rfl).trans hposes.clauses_eq⟩
  obtain ⟨g₁, g₂, hclause⟩ := hensemble.exists_learnClause cs rfl c hc
  refine Problem.inUnit_learnClause (fun e he => ?_) (hposes.length_examples.trans_le hexamples)
    hclause
  rw [hposes.examples_eq, htask] at he
  obtain ⟨d, _, rfl⟩ := List.mem_map.1 he
  exact Task.inUnit_truth d.weight

theorem classifier_scores_mem_unit (htask : l.task = .classification)
    (hexamples : examples.length < 2 ^ 53) (hclauses : l.settings.clauses < 2 ^ 53)
    (hfit : (l.fit examples background g).1 = .learned rules) {fitted : Learner}
    (hrules : fitted.rules = some rules) (queries background' : List Fact)
    (hqueries : ∀ q ∈ queries, q.predicate = rules.target ∧ q.arity = rules.arity) :
    ∃ scores, fitted.scores queries background' = .ok scores ∧ scores.length = queries.length ∧
      ∀ p ∈ scores, p.isNaN = false ∧ 0.0 ≤ p ∧ p ≤ 1.0 := by
  obtain ⟨hunit, hlength⟩ := inUnit_fit htask hexamples.le hfit
  refine ⟨queries.map (rules.score (Store.compile background').view), ?_, List.length_map _, ?_⟩
  · simp only [scores, answers, hrules, checkExamples_eq_ok_iff.2 hqueries]
  · intro p hp
    obtain ⟨q, _, rfl⟩ := List.mem_map.1 hp
    have hscore := Rules.inUnit_score hunit (hlength.trans_le hclauses.le)
      (Store.compile background').view q
    exact ⟨(FloatOrder.isNaN_of_le hscore.1).2, hscore⟩

theorem classifier_scores_mem_unit_extreme :
    let modes : List Mode := [⟨"flies", [⟨.input, "animal"⟩]⟩, ⟨"bird", [⟨.input, "animal"⟩]⟩]
    let background : List Fact := [⟨1.0, "bird", ["tweety"]⟩, ⟨1.0, "bird", ["tux"]⟩]
    let examples : List Fact := [⟨1.0 / 0.0, "flies", ["tweety"]⟩, ⟨0.0 / 0.0, "flies", ["tom"]⟩,
      ⟨-1.0 / 0.0, "flies", ["nemo"]⟩]
    let l := Learner.new .classification modes "flies" {}
    ∃ rules, (l.fit examples background (⟨3⟩ : SplitMix)).1 = .learned rules ∧
      ∃ scores, { l with rules := some rules }.scores [⟨1.0, "flies", ["tux"]⟩] background =
          .ok scores ∧ scores.length = 1 ∧ ∀ p ∈ scores, p.isNaN = false ∧ 0.0 ≤ p ∧ p ≤ 1.0 := by
  intro modes background examples l
  have hshape : (l.fit examples background (⟨3⟩ : SplitMix)).1.rules?.map
      (fun rules => (rules.target, rules.arity)) = some ("flies", 1) := by
    decide +kernel
  obtain ⟨rules, hrules, hshape⟩ := Option.map_eq_some_iff.1 hshape
  obtain ⟨htarget, harity⟩ := Prod.mk.inj hshape
  have hfit := Outcome.rules?_eq_some_iff.1 hrules
  refine ⟨rules, hfit, classifier_scores_mem_unit rfl (by decide) (by decide) hfit rfl _ _ ?_⟩
  exact List.forall_mem_singleton.2 ⟨htarget.symm, harity.symm⟩

end Learner

end RuleInduction
