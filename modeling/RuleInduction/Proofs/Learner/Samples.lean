import RuleInduction.Proofs.Learner.Attempts
import RuleInduction.Proofs.Search.Subjects
import RuleInduction.Proofs.Settings.Resolve

namespace RuleInduction

theorem Settings.sampleSize_mem (s : Settings) {examples : ℕ} (h : examples ≠ 0) :
    1 ≤ s.sampleSize examples ∧ s.sampleSize examples ≤ examples := by
  rw [sampleSize]
  omega

namespace Problem

variable {G : Type} [RandomSource G]

theorem exists_places_of_learnClause {p : Problem} {g g' : G} {c : LearnedClause}
    (h : p.learnClause g = some (c, g')) : ∃ places, Random.Rising p.examples.length places ∧
      places.length = min p.settings.sampleSize p.examples.length ∧ ∃ g₁ : G,
        c = ((ClauseSearch.start p.space p.store p.settings.limits
          (places.filterMap (p.examples[·]?))).learn g₁).1 := by
  obtain ⟨places, hrising, hlength, heq⟩ :=
    Random.exists_places_subsequence p.examples.length p.settings.sampleSize g
  obtain ⟨g₁, hclause⟩ := sample_of_learnClause h
  rw [heq p.examples rfl] at hclause
  exact ⟨places, hrising, hlength, g₁, hclause⟩

end Problem

namespace Learner

variable {l : Learner} {examples background : List Fact} {p : Problem}

theorem Poses.sampleSize_mem (h : l.Poses examples background p) :
    1 ≤ p.settings.sampleSize ∧ p.settings.sampleSize ≤ examples.length := by
  rw [Settings.eq_resolved h.settings]
  exact l.settings.sampleSize_mem (mt List.eq_nil_of_length_eq_zero h.examples_ne_nil)

theorem Poses.weights_places (h : l.Poses examples background p) (places : List ℕ) :
    (places.filterMap (p.examples[·]?)).map Fact.weight =
      places.filterMap ((examples.map fun e => l.task.truth e.weight)[·]?) := by
  simp only [h.examples_eq, List.map_filterMap, List.getElem?_map, Option.map_map]
  rfl

theorem clauses_of_samples (G : Type) [RandomSource G] :
    (∀ (n size : ℕ) (g : G), ∃ places, Random.Rising n places ∧ places.length = min size n ∧
      ∀ {α : Type} (xs : List α), xs.length = n →
        (Random.subsequence xs size g).1 = places.filterMap (xs[·]?) ∧
          (Random.subsequence xs size g).1.length = min size n) ∧
    ∀ (l : Learner) (examples background : List Fact) (g : G) (rules : Rules),
      (l.fit examples background g).1 = .learned rules →
        ∃ p, l.Poses examples background p ∧ ∀ c ∈ rules.clauses, ∃ places,
          Random.Rising examples.length places ∧ places.length = p.settings.sampleSize ∧
          (∃ g' : G, c = ((ClauseSearch.start p.space p.store p.settings.limits
            (places.filterMap (p.examples[·]?))).learn g').1) ∧
          c.prior = mean (places.filterMap ((examples.map fun e => l.task.truth e.weight)[·]?)) := by
  refine ⟨fun n size g => ?_, fun l examples background g rules hfit => ?_⟩
  · obtain ⟨places, hrising, hlength, heq⟩ := Random.exists_places_subsequence n size g
    refine ⟨places, hrising, hlength, fun xs hxs => ⟨heq xs hxs, ?_⟩⟩
    rw [heq xs hxs, Random.length_filterMap_getElem? (hxs ▸ hrising.lt), hlength]
  · obtain ⟨p, cs, g', hposes, hensemble, rfl⟩ := poses_of_learned hfit
    refine ⟨p, hposes, fun c hc => ?_⟩
    obtain ⟨g₁, g₂, hlearn⟩ := hensemble.exists_learnClause cs rfl c hc
    obtain ⟨places, hrising, hlength, g₃, hclause⟩ := Problem.exists_places_of_learnClause hlearn
    rw [hposes.length_examples] at hrising hlength
    rw [Nat.min_eq_left hposes.sampleSize_mem.2] at hlength
    refine ⟨places, hrising, hlength, ⟨g₃, hclause⟩, ?_⟩
    rw [hclause, ClauseSearch.prior_learn, hposes.weights_places]

theorem clauses_of_samples_of_twins :
    let modes : List Mode := [⟨"flies", [⟨.input, "animal"⟩]⟩, ⟨"bird", [⟨.input, "animal"⟩]⟩]
    let background : List Fact := [⟨1.0, "bird", ["tweety"]⟩, ⟨1.0, "bird", ["tux"]⟩]
    let examples : List Fact := [⟨3.0, "flies", ["tweety"]⟩, ⟨0.0, "flies", ["tom"]⟩,
      ⟨3.0, "flies", ["tweety"]⟩, ⟨1.0, "flies", ["tux"]⟩]
    let l := Learner.new .regression modes "flies" { clauses := 3, sampleRatio := 0.5 }
    ∃ rules, (l.fit examples background (⟨3⟩ : SplitMix)).1 = .learned rules ∧
      rules.clauses.length = 3 ∧ ∀ c ∈ rules.clauses, ∃ places, Random.Rising 4 places ∧
        places.length = 2 ∧ c.prior = mean (places.filterMap ([3.0, 0.0, 3.0, 1.0][·]?)) := by
  intro modes background examples l
  have hposed : (l.problem examples background).toOption.isSome = true := by
    decide +kernel
  have hsize : l.settings.sampleSize 4 = 2 := by
    decide +kernel
  obtain ⟨rules, hfit, hlength⟩ : ∃ rules,
      (l.fit examples background (⟨3⟩ : SplitMix)).1 = .learned rules ∧ rules.clauses.length = 3 :=
    exists_learned_of_best (fittable_of_isSome hposed) rfl (by decide) (SplitMix.fair _) (by decide)
  obtain ⟨p, hposes, hclauses⟩ := (clauses_of_samples SplitMix).2 l examples background _ _ hfit
  refine ⟨rules, hfit, hlength, fun c hc => ?_⟩
  obtain ⟨places, hrising, hplaces, -, hprior⟩ := hclauses c hc
  rw [Settings.eq_resolved hposes.settings] at hplaces
  exact ⟨places, hrising, hplaces.trans hsize, hprior⟩

end Learner

end RuleInduction
