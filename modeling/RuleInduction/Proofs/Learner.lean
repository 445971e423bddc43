import RuleInduction.Learner
import RuleInduction.Proofs.Random.Sample
import RuleInduction.Proofs.Search.Alike
import RuleInduction.Random.Generator

namespace RuleInduction

theorem checkExamples_eq_ok_iff {target : Predicate} {arity : Nat} {examples : List Fact} :
    checkExamples target arity examples = .ok () ↔
      ∀ e ∈ examples, e.predicate = target ∧ e.arity = arity := by
  induction examples with
  | nil => exact iff_of_true rfl fun e he => absurd he List.not_mem_nil
  | cons e examples ih =>
      rw [checkExamples, List.forall_mem_cons, ← ih]
      split
      · next hp => exact iff_of_false (fun h => by cases h) fun h => hp h.1.1
      · next hp =>
          split
          · next ha => exact iff_of_false (fun h => by cases h) fun h => ha h.1.2
          · next ha =>
              rw [and_iff_right ⟨Classical.not_not.1 hp, Classical.not_not.1 ha⟩]

theorem SameTuples.ofModes {modes : List Mode} {background background' : List Fact}
    (h : SameTuples modes background background') (target : String) :
    SearchSpace.ofModes target modes background = SearchSpace.ofModes target modes background' := by
  simp only [SearchSpace.ofModes, h.derive]

namespace Problem

variable {G : Type} [RandomSource G]

structure WellPosed (p : Problem) : Prop where
  target : Mode.declares p.space.modes p.space.target = true
  examples : ∀ e ∈ p.examples, e.predicate = p.space.target

def withStore (p : Problem) (store : Store) : Problem :=
  { p with store }

variable {p : Problem} {store : Store}

theorem learnClause_congr (hp : p.WellPosed) (h : p.store.Alike p.space.modes store) (g : G) :
    p.learnClause g = (p.withStore store).learnClause g := by
  have halike := ClauseSearch.start_alike p.settings.limits h hp.target fun e he =>
    hp.examples e ((Random.subsequence_sublist p.examples p.settings.sampleSize g).subset he)
  simp only [learnClause, Random.answered]
  cases hsource : (Random.subsequence p.examples p.settings.sampleSize g).2 with
  | none => simp only [withStore, hsource, Option.map_none, Option.bind_eq_bind, Option.bind_none]
  | some g' =>
      simp only [withStore, hsource, Option.map_some, Option.bind_eq_bind, Option.bind_some]
      exact congrArg Random.answered (ClauseSearch.learn_congr halike g')

theorem learnClauses_congr (hp : p.WellPosed) (h : p.store.Alike p.space.modes store) (n : Nat)
    (g : G) : p.learnClauses n g = (p.withStore store).learnClauses n g := by
  induction n generalizing g with
  | zero => rfl
  | succ n ih =>
      simp only [learnClauses, learnClause_congr hp h, ih]

theorem sample_of_learnClause {g g' : G} {c : LearnedClause} (h : p.learnClause g = some (c, g')) :
    ∃ g₁ : G, c = ((ClauseSearch.start p.space p.store p.settings.limits
      (Random.subsequence p.examples p.settings.sampleSize g).1).learn g₁).1 := by
  obtain ⟨⟨sample, g₁⟩, hsample, hlearn⟩ := Option.bind_eq_some_iff.1 h
  obtain ⟨g₂, -, heq⟩ := Option.map_eq_some_iff.1 hlearn
  obtain ⟨g₃, -, heq'⟩ := Option.map_eq_some_iff.1 hsample
  cases heq'
  exact ⟨g₁, (congrArg Prod.fst heq).symm⟩

theorem learnClauses_succ_eq_some_iff {n : Nat} {g g' : G} {o : Option (List LearnedClause)} :
    p.learnClauses (n + 1) g = some (o, g') ↔ ∃ c g₁, p.learnClause g = some (c, g₁) ∧
      (c.stop = .unboundedWheel ∧ o = none ∧ g' = g₁ ∨
        c.stop ≠ .unboundedWheel ∧
          ∃ rest, p.learnClauses n g₁ = some (rest, g') ∧ o = rest.map (c :: ·)) := by
  constructor
  · intro h
    obtain ⟨⟨c, g₁⟩, hc, h⟩ := Option.bind_eq_some_iff.1 h
    dsimp only at h
    refine ⟨c, g₁, hc, ?_⟩
    split at h
    · next hstop =>
        cases h
        exact .inl ⟨hstop, rfl, rfl⟩
    · next hstop =>
        obtain ⟨⟨rest, g₂⟩, hrest, h⟩ := Option.bind_eq_some_iff.1 h
        cases h
        exact .inr ⟨hstop, rest, hrest, rfl⟩
  · rintro ⟨c, g₁, hc, ⟨hstop, rfl, rfl⟩ | ⟨hstop, rest, hrest, rfl⟩⟩
    · simp only [learnClauses, hc, hstop, Option.bind_eq_bind, Option.bind_some, if_true, pure]
    · simp only [learnClauses, hc, if_neg hstop, hrest, Option.bind_eq_bind, Option.bind_some, pure]

/-- What the clauses of an ensemble come from. The first search that finds no finite wheel is the
last. -/
inductive Ensemble (p : Problem) : Nat → G → Option (List LearnedClause) → G → Prop
  | nil (g : G) : Ensemble p 0 g (some []) g
  | unbounded {n : Nat} {g g' : G} {c : LearnedClause} (h : p.learnClause g = some (c, g'))
      (hstop : c.stop = .unboundedWheel) : Ensemble p (n + 1) g none g'
  | cons {n : Nat} {g g' g'' : G} {c : LearnedClause} {cs : Option (List LearnedClause)}
      (h : p.learnClause g = some (c, g')) (hstop : c.stop ≠ .unboundedWheel)
      (rest : Ensemble p n g' cs g'') : Ensemble p (n + 1) g (cs.map (c :: ·)) g''

theorem ensemble_of_learnClauses {n : Nat} {g g' : G} {cs : Option (List LearnedClause)}
    (h : p.learnClauses n g = some (cs, g')) : p.Ensemble n g cs g' := by
  induction n generalizing g cs with
  | zero =>
      cases h
      exact .nil _
  | succ n ih =>
      obtain ⟨c, g₁, hc, ⟨hstop, rfl, rfl⟩ | ⟨hstop, rest, hrest, rfl⟩⟩ :=
        learnClauses_succ_eq_some_iff.1 h
      · exact .unbounded hc hstop
      · exact .cons hc hstop (ih hrest)

theorem Ensemble.length_eq {n : Nat} {g g' : G} {o : Option (List LearnedClause)}
    (h : p.Ensemble n g o g') : ∀ cs ∈ o, cs.length = n := by
  induction h with
  | nil g => rintro _ ⟨⟩; rfl
  | unbounded => rintro _ ⟨⟩
  | cons _ _ _ ih =>
      intro cs hcs
      obtain ⟨rest, hrest, rfl⟩ := Option.map_eq_some_iff.1 hcs
      rw [List.length_cons, ih rest hrest]

theorem Ensemble.exists_learnClause {n : Nat} {g g' : G} {o : Option (List LearnedClause)}
    (h : p.Ensemble n g o g') :
    ∀ cs ∈ o, ∀ c ∈ cs, ∃ g₁ g₂ : G, p.learnClause g₁ = some (c, g₂) := by
  induction h with
  | nil g =>
      rintro _ ⟨⟩
      exact List.forall_mem_nil _
  | unbounded => rintro _ ⟨⟩
  | cons hc _ _ ih =>
      intro cs hcs
      obtain ⟨rest, hrest, rfl⟩ := Option.map_eq_some_iff.1 hcs
      exact List.forall_mem_cons.2 ⟨⟨_, _, hc⟩, ih rest hrest⟩

theorem declared_of_learnClause {g g' : G} {c : LearnedClause}
    (h : p.learnClause g = some (c, g')) : c.clause.Declared p.space.modes := by
  obtain ⟨g₁, rfl⟩ := sample_of_learnClause h
  exact ClauseSearch.declared_learn _ _

end Problem

namespace Learner

variable {l : Learner} {examples background background' : List Fact}

structure Poses (l : Learner) (examples background : List Fact) (p : Problem) : Prop where
  space : SearchSpace.ofModes l.target l.modes background = .ok p.space
  examples_ne_nil : examples ≠ []
  of_target : ∀ e ∈ examples, e.predicate = p.space.target ∧ e.arity = p.space.targetTypes.length
  settings : l.settings.resolve l.task.criterion examples.length
    (p.space.bodyPredicates l.settings.recursive).length = .ok p.settings
  store_eq : p.store = .compile background
  examples_eq : p.examples = examples.map fun e => e.withWeight (l.task.truth e.weight)

theorem problem_eq_ok_iff {p : Problem} :
    l.problem examples background = .ok p ↔ l.Poses examples background p := by
  simp only [problem, bind, Except.bind, pure, Except.pure, throw, throwThe,
    MonadExceptOf.throw]
  constructor
  · intro h
    split at h
    · cases h
    · next space hspace =>
        split at h
        · cases h
        · next hempty =>
            split at h
            · cases h
            · next hcheck =>
                split at h
                · cases h
                · next settings hsettings =>
                    cases h
                    exact ⟨hspace, mt List.isEmpty_iff.2 hempty, checkExamples_eq_ok_iff.1 hcheck,
                      hsettings, rfl, rfl⟩
  · obtain ⟨space, store, settings, own⟩ := p
    rintro ⟨hspace, hempty, hcheck, hsettings, hstore, hown⟩
    dsimp only at hspace hcheck hsettings hstore hown
    simp only [hspace, if_neg (mt List.isEmpty_iff.1 hempty), checkExamples_eq_ok_iff.2 hcheck,
      hsettings, hstore, hown]

theorem Poses.length_examples {p : Problem} (h : l.Poses examples background p) :
    p.examples.length = examples.length := by
  rw [h.examples_eq, List.length_map]

theorem Poses.wellPosed {p : Problem} (h : l.Poses examples background p) : p.WellPosed where
  target := by
    rw [(SearchSpace.ofModes_eq_ok h.space).2]
    exact Mode.declares_iff.2 (SearchSpace.target_mem_of_ofModes h.space)
  examples := by
    intro e he
    rw [h.examples_eq] at he
    obtain ⟨d, hd, rfl⟩ := List.mem_map.1 he
    exact (h.of_target d hd).1

theorem problem_congr (h : SameTuples l.modes background background') (examples : List Fact) :
    l.problem examples background' =
      (l.problem examples background).map fun p => p.withStore (.compile background') := by
  simp only [problem, h.ofModes, bind, Except.bind]
  split
  · rfl
  · split
    · rfl
    · split
      · rfl
      · split
        · rfl
        · rfl

variable {G : Type} [RandomSource G]

theorem fit_congr (h : SameTuples l.modes background background') (examples : List Fact) (g : G) :
    l.fit examples background g = l.fit examples background' g := by
  simp only [fit, problem_congr h]
  cases hp : l.problem examples background with
  | error e => rfl
  | ok p =>
      have hposes := problem_eq_ok_iff.1 hp
      have halike : p.store.Alike p.space.modes (.compile background') := by
        rw [hposes.store_eq, (SearchSpace.ofModes_eq_ok hposes.space).2]
        exact h.compile
      simp only [Except.map, Problem.learnClauses_congr hposes.wellPosed halike]
      rfl

inductive Fit (l : Learner) (examples background : List Fact) (g : G) :
    Outcome → Learner → Option G → Prop
  | refused {e : SetupError} (h : l.problem examples background = .error e) :
      Fit l examples background g (.refused (.setup e)) l (some g)
  | crowded {p : Problem} (poses : l.Poses examples background p)
      (h : clauseCapacity < p.settings.clauses) : Fit l examples background g .brokenOff l (some g)
  | unanswered {p : Problem} (poses : l.Poses examples background p)
      (room : p.settings.clauses ≤ clauseCapacity)
      (h : p.learnClauses p.settings.clauses g = none) :
      Fit l examples background g .unanswered l none
  | unbounded {p : Problem} {g' : G} (poses : l.Poses examples background p)
      (room : p.settings.clauses ≤ clauseCapacity)
      (h : p.learnClauses p.settings.clauses g = some (none, g')) :
      Fit l examples background g .brokenOff l (some g')
  | learned {p : Problem} {g' : G} {cs : List LearnedClause} (poses : l.Poses examples background p)
      (room : p.settings.clauses ≤ clauseCapacity)
      (h : p.learnClauses p.settings.clauses g = some (some cs, g')) :
      Fit l examples background g (.learned ⟨p.space.target, p.space.targetTypes.length, cs⟩)
        { l with rules := some ⟨p.space.target, p.space.targetTypes.length, cs⟩ } (some g')

theorem exists_fit (l : Learner) (examples background : List Fact) (g : G) : ∃ o l' g',
    l.fit examples background g = (o, l', g') ∧ l.Fit examples background g o l' g' := by
  let r := l.fit examples background g
  refine ⟨r.1, r.2.1, r.2.2, rfl, ?_⟩
  simp only [r, fit]
  cases hp : l.problem examples background with
  | error e => exact .refused hp
  | ok p =>
      have hposes := problem_eq_ok_iff.1 hp
      dsimp only
      split
      · next hfull => exact .crowded hposes hfull
      · next hroom =>
          have hroom := Nat.le_of_not_lt hroom
          split
          · next h => exact .unanswered hposes hroom h
          · next h => exact .unbounded hposes hroom h
          · next h => exact .learned hposes hroom h

theorem poses_of_learned {g : G} {rules : Rules}
    (h : (l.fit examples background g).1 = .learned rules) : ∃ p cs g',
      l.Poses examples background p ∧ p.Ensemble p.settings.clauses g (some cs) g' ∧
        rules = ⟨p.space.target, p.space.targetTypes.length, cs⟩ := by
  obtain ⟨o, l', g', heq, hfit⟩ := l.exists_fit examples background g
  rw [heq] at h
  cases hfit with
  | learned hposes _ hlearn =>
      cases h
      exact ⟨_, _, _, hposes, Problem.ensemble_of_learnClauses hlearn, rfl⟩
  | _ => cases h

theorem modes_fit (l : Learner) (examples background : List Fact) (g : G) :
    (l.fit examples background g).2.1.modes = l.modes := by
  obtain ⟨o, l', g', heq, hfit⟩ := l.exists_fit examples background g
  rw [heq]
  cases hfit <;> rfl

inductive Reached : Learner → Prop
  | new (task : Task) (modes : List Mode) (target : String) (settings : Settings) :
      Reached (.new task modes target settings)
  | fit {G : Type} [RandomSource G] {l : Learner} (h : Reached l) (examples background : List Fact)
      (g : G) : Reached (l.fit examples background g).2.1

def Declared (l : Learner) : Prop :=
  ∀ rules ∈ l.rules, ∀ c ∈ rules.clauses, c.clause.Declared l.modes

theorem declared_fit (h : l.Declared) (examples background : List Fact) (g : G) :
    (l.fit examples background g).2.1.Declared := by
  obtain ⟨o, l', g', heq, hfit⟩ := l.exists_fit examples background g
  rw [heq]
  cases hfit with
  | learned hposes _ hlearn =>
      rintro rules ⟨⟩ c hc
      obtain ⟨g₁, g₂, hclause⟩ :=
        (Problem.ensemble_of_learnClauses hlearn).exists_learnClause _ rfl c hc
      have hdeclared := Problem.declared_of_learnClause hclause
      rwa [(SearchSpace.ofModes_eq_ok hposes.space).2] at hdeclared
  | _ => exact h

theorem Reached.declared (h : l.Reached) : l.Declared := by
  induction h with
  | new task modes target settings =>
      rintro rules ⟨⟩
  | fit _ examples background g ih => exact declared_fit ih examples background g

theorem score_congr {modes : List Mode} {v v' : View} {rules : Rules} (h : v.Alike modes v')
    (hrules : ∀ c ∈ rules.clauses, c.clause.Declared modes) (f : Fact) :
    rules.score v f = rules.score v' f := by
  have hclause : ∀ c ∈ rules.clauses, c.leafValue (c.binary v f) = c.leafValue (c.binary v' f) :=
    fun c hc => congrArg c.leafValue (h.binaryStrengths (hrules c hc))
  rw [Rules.score, Rules.score, List.map_congr_left hclause]

theorem scores_congr (hl : l.Declared) (h : SameTuples l.modes background background')
    (queries : List Fact) : l.scores queries background = l.scores queries background' := by
  simp only [scores, answers]
  cases hrules : l.rules with
  | none => rfl
  | some rules =>
      simp only [funext (score_congr h.compile.view (hl rules hrules))]

theorem fit_and_predict_congr (hl : l.Reached) (h : SameTuples l.modes background background') :
    (∀ {G : Type} [RandomSource G] (examples : List Fact) (g : G),
      l.fit examples background g = l.fit examples background' g) ∧
    ∀ queries : List Fact, l.scores queries background = l.scores queries background' ∧
      l.predict queries background = l.predict queries background' := by
  refine ⟨fun examples g => fit_congr h examples g, fun queries => ?_⟩
  have hscores := scores_congr hl.declared h queries
  refine ⟨hscores, ?_⟩
  rw [predict, predict, hscores]

theorem fit_and_predict_congr_birds :
    let modes : List Mode := [⟨"flies", [⟨.input, "animal"⟩]⟩, ⟨"bird", [⟨.input, "animal"⟩]⟩]
    let background : List Fact := [⟨1.0, "bird", ["tweety"]⟩, ⟨1.0, "bird", ["tux"]⟩]
    let background' : List Fact :=
      [⟨0.5, "bird", ["tux"]⟩, ⟨1.0, "fish", ["nemo"]⟩, ⟨2.0, "bird", ["tweety"]⟩]
    let examples : List Fact := [⟨1.0, "flies", ["tweety"]⟩, ⟨0.0, "flies", ["tom"]⟩]
    let l := Learner.new .classification modes "flies" {}
    let fitted := (l.fit examples background (⟨3⟩ : SplitMix)).2.1
    l.Reached ∧ fitted.Reached ∧ SameTuples modes background background' ∧
      l.fit examples background (⟨3⟩ : SplitMix) = l.fit examples background' (⟨3⟩ : SplitMix) ∧
      (fitted.predict [⟨1.0, "flies", ["tux"]⟩] background').toOption = some [1.0] := by
  intro modes background background' examples l fitted
  have hl : l.Reached := .new _ _ _ _
  have hfitted : fitted.Reached := hl.fit examples background (⟨3⟩ : SplitMix)
  have h : SameTuples modes background background' := by decide
  have h' : SameTuples fitted.modes background background' := by
    rw [modes_fit]
    exact h
  have hpredict : (fitted.predict [⟨1.0, "flies", ["tux"]⟩] background).toOption = some [1.0] := by
    decide +kernel
  rw [((fit_and_predict_congr hfitted h').2 _).2] at hpredict
  exact ⟨hl, hfitted, h, (fit_and_predict_congr hl h).1 examples _, hpredict⟩

end Learner

end RuleInduction
