import Mathlib.Data.List.Dedup
import RuleInduction.Proofs.Learner
import RuleInduction.Proofs.Search.Bound
import RuleInduction.Proofs.Search.Stop
import RuleInduction.Proofs.Settings.Resolve

namespace RuleInduction

theorem SearchSpace.length_bodyPredicates {target : String} {modes : List Mode}
    {background : List Fact} {space : SearchSpace}
    (h : ofModes target modes background = .ok space) (recursive : Bool) :
    (space.bodyPredicates recursive).length =
      ((modes.map Mode.predicate).dedup.filter fun p => recursive || p ≠ space.target).length := by
  have hsig := (ofModes_eq_ok h).1
  have hperm : space.signatures.keys.Perm (modes.map Mode.predicate).dedup := by
    refine (List.perm_ext_iff_of_nodup Std.ExtTreeMap.nodup_keys (List.nodup_dedup _)).2 fun p => ?_
    rw [Std.ExtTreeMap.mem_keys, Signatures.mem_ofModes hsig, List.mem_dedup, List.mem_map]
  exact (hperm.filter _).length_eq

theorem ClauseSearch.roulette_of_unboundedWheel {G : Type} [RandomSource G] {s : ClauseSearch}
    {g : G} (h : (s.learn g).1.stop = .unboundedWheel) : s.limits.strategy = .roulette := by
  have hend := (s.ending_learn g).1
  rw [h] at hend
  cases hend with
  | fruitless _ _ _ hround =>
      cases hround with
      | unboundedWheel hwheel => exact hwheel.roulette

namespace Problem

variable {G : Type} [RandomSource G] {g : G} {p : Problem}

theorem roulette_of_learnClause {g' : G} {c : LearnedClause} (h : p.learnClause g = some (c, g'))
    (hstop : c.stop = .unboundedWheel) : p.settings.limits.strategy = .roulette := by
  obtain ⟨g₁, rfl⟩ := sample_of_learnClause h
  exact ClauseSearch.roulette_of_unboundedWheel hstop

theorem exists_unbounded_of_learnClauses {n : Nat} {g' : G}
    (h : p.learnClauses n g = some (none, g')) : ∃ k cs g₁ c, k < n ∧
      p.learnClauses k g = some (some cs, g₁) ∧ p.learnClause g₁ = some (c, g') ∧
        c.stop = .unboundedWheel := by
  induction n generalizing g with
  | zero => cases h
  | succ n ih =>
      obtain ⟨c, g₁, hc, ⟨hstop, -, rfl⟩ | ⟨hstop, rest, hrest, hnone⟩⟩ :=
        learnClauses_succ_eq_some_iff.1 h
      · exact ⟨0, [], g, c, Nat.succ_pos n, rfl, hc, hstop⟩
      · cases Option.map_eq_none_iff.1 hnone.symm
        obtain ⟨k, cs, g₂, c', hk, hcs, hc', hstop'⟩ := ih hrest
        have hcons := learnClauses_succ_eq_some_iff.2
          ⟨c, g₁, hc, .inr ⟨hstop, some cs, hcs, rfl⟩⟩
        exact ⟨k + 1, c :: cs, g₂, c', Nat.succ_lt_succ hk, hcons, hc', hstop'⟩

theorem learnClauses_of_unbounded {k n : Nat} {g₁ g' : G} {cs : List LearnedClause}
    {c : LearnedClause} (hk : k < n) (hcs : p.learnClauses k g = some (some cs, g₁))
    (hc : p.learnClause g₁ = some (c, g')) (hstop : c.stop = .unboundedWheel) :
    p.learnClauses n g = some (none, g') := by
  induction n generalizing k g cs with
  | zero => exact absurd hk (Nat.not_lt_zero k)
  | succ n ih =>
      cases k with
      | zero =>
          cases hcs
          exact learnClauses_succ_eq_some_iff.2 ⟨c, g', hc, .inl ⟨hstop, rfl, rfl⟩⟩
      | succ k =>
          obtain ⟨c', g₂, hc', ⟨-, hnone, -⟩ | ⟨hstop', rest, hrest, hsome⟩⟩ :=
            learnClauses_succ_eq_some_iff.1 hcs
          · cases hnone
          · obtain ⟨cs', rfl, -⟩ := Option.map_eq_some_iff.1 hsome.symm
            have hnone := ih (Nat.lt_of_succ_lt_succ hk) hrest
            exact learnClauses_succ_eq_some_iff.2
              ⟨c', g₂, hc', .inr ⟨hstop', none, hnone, rfl⟩⟩

section Fair

variable (hlength : p.examples.length < 2 ^ 64)

include hlength

theorem exists_learnClause_of_fair (hg : Random.Fair g) :
    ∃ c g', p.learnClause g = some (c, g') ∧ Random.Reaches g g' := by
  obtain ⟨g₁, hsample, hreach⟩ :=
    Random.remains_subsequence hg p.examples p.settings.sampleSize hlength
  let s := ClauseSearch.start p.space p.store p.settings.limits
    (Random.subsequence p.examples p.settings.sampleSize g).1
  obtain ⟨g₂, hlearn, hrest⟩ :=
    ClauseSearch.remains_learn (hg.of_reaches hreach).answers s
  refine ⟨(s.learn g₁).1, g₂, ?_, hreach.trans hrest⟩
  simp only [learnClause, Random.answered, hsample, Option.map_some, Option.bind_eq_bind,
    Option.bind_some]
  exact congrArg (Option.map _) hlearn

theorem learnClauses_ne_none (n : Nat) (hg : Random.Fair g) : p.learnClauses n g ≠ none := by
  induction n generalizing g with
  | zero => exact Option.some_ne_none _
  | succ n ih =>
      obtain ⟨c, g₁, hclause, hreach⟩ := exists_learnClause_of_fair hlength hg
      simp only [learnClauses, hclause, Option.bind_eq_bind, Option.bind_some]
      split
      · exact Option.some_ne_none _
      · obtain ⟨r, hr⟩ := Option.ne_none_iff_exists'.1 (ih (hg.of_reaches hreach))
        rw [hr]
        exact Option.some_ne_none _

end Fair

end Problem

namespace Learner

def targetName (l : Learner) : Predicate :=
  String.ofList (Text.trim l.target.toList)

def bodyCount (l : Learner) : Nat :=
  ((l.modes.map Mode.predicate).dedup.filter fun p =>
    l.settings.recursive || p ≠ l.targetName).length

structure Fittable (l : Learner) (examples : List Fact) : Prop where
  target_ne_empty : l.targetName ≠ ""
  agree : Signatures.Agree l.modes
  declared : ∃ m ∈ l.modes, m.predicate = l.targetName
  examples_ne_nil : examples ≠ []
  of_target : ∀ e ∈ examples, e.predicate = l.targetName ∧
    ∀ m ∈ l.modes, m.predicate = l.targetName → e.arity = m.arity
  resolves : ∃ settings,
    l.settings.resolve l.task.criterion examples.length l.bodyCount = .ok settings

variable {l : Learner} {examples background : List Fact} {p : Problem}

theorem target_eq_of_ofModes {space : SearchSpace}
    (h : SearchSpace.ofModes l.target l.modes background = .ok space) :
    space.target = l.targetName :=
  (SearchSpace.ofModes_eq_ok_iff.1 h).1.target_eq

theorem length_targetTypes {space : SearchSpace}
    (h : SearchSpace.ofModes l.target l.modes background = .ok space) {m : Mode}
    (hm : m ∈ l.modes) (hp : m.predicate = l.targetName) :
    space.targetTypes.length = m.arity := by
  have htypes := Signatures.types_of_mem (SearchSpace.ofModes_eq_ok h).1 hm
  rw [SearchSpace.targetTypes, target_eq_of_ofModes h, ← hp, htypes, Mode.types, List.length_map,
    Mode.arity]

theorem length_bodyPredicates_eq_bodyCount {space : SearchSpace}
    (h : SearchSpace.ofModes l.target l.modes background = .ok space) :
    (space.bodyPredicates l.settings.recursive).length = l.bodyCount := by
  rw [SearchSpace.length_bodyPredicates h, target_eq_of_ofModes h, bodyCount]

theorem Poses.clauses_eq (h : l.Poses examples background p) :
    p.settings.clauses = l.settings.clauses :=
  congrArg ResolvedSettings.clauses (Settings.eq_resolved h.settings)

theorem Poses.fittable (h : l.Poses examples background p) : l.Fittable examples := by
  obtain ⟨hname, hagree, hdeclared⟩ := SearchSpace.exists_ofModes_iff.1 ⟨_, h.space⟩
  refine ⟨mt String.ofList_eq_empty_iff.1 hname, hagree, hdeclared, h.examples_ne_nil, ?_, ?_⟩
  · intro e he
    obtain ⟨hp, ha⟩ := h.of_target e he
    refine ⟨hp.trans (target_eq_of_ofModes h.space), fun m hm hmp => ?_⟩
    rw [ha, length_targetTypes h.space hm hmp]
  · rw [← length_bodyPredicates_eq_bodyCount h.space]
    exact ⟨_, h.settings⟩

theorem fittable_of_isSome (h : (l.problem examples background).toOption.isSome = true) :
    l.Fittable examples := by
  cases hp : l.problem examples background with
  | error e =>
      rw [hp] at h
      cases h
  | ok p => exact (problem_eq_ok_iff.1 hp).fittable

theorem Fittable.exists_problem (h : l.Fittable examples) (background : List Fact) :
    ∃ p, l.problem examples background = .ok p := by
  obtain ⟨space, hspace⟩ := SearchSpace.exists_ofModes_iff.2
    ⟨mt String.ofList_eq_empty_iff.2 h.target_ne_empty, h.agree, h.declared⟩
  obtain ⟨settings, hsettings⟩ := h.resolves
  obtain ⟨m, hm, hp⟩ := h.declared
  refine ⟨⟨space, .compile background, settings, _⟩,
    problem_eq_ok_iff.2 ⟨hspace, h.examples_ne_nil, fun e he => ?_, ?_, rfl, rfl⟩⟩
  · obtain ⟨hep, hea⟩ := h.of_target e he
    exact ⟨hep.trans (target_eq_of_ofModes hspace).symm,
      (hea m hm hp).trans (length_targetTypes hspace hm hp).symm⟩
  · rwa [length_bodyPredicates_eq_bodyCount hspace]

structure Attempt where
  Gen : Type
  [source : RandomSource Gen]
  examples : List Fact
  background : List Fact
  gen : Gen

attribute [instance] Attempt.source

def Outcome.rules? : Outcome → Option Rules
  | .learned rules => some rules
  | _ => none

theorem Outcome.rules?_eq_some_iff {o : Outcome} {rules : Rules} :
    o.rules? = some rules ↔ o = .learned rules := by
  cases o with
  | learned rules' => simp only [rules?, Option.some.injEq, learned.injEq]
  | _ => exact iff_of_false nofun nofun

def attempt (l : Learner) (a : Attempt) : Outcome × Learner :=
  let (o, l, _) := l.fit a.examples a.background a.gen
  (o, l)

def attempts : Learner → List Attempt → List Outcome × Learner
  | l, [] => ([], l)
  | l, a :: as =>
    let (o, l) := l.attempt a
    let (os, l) := l.attempts as
    (o :: os, l)

def MeetsUnboundedWheel (l : Learner) (a : Attempt) : Prop :=
  ∃ p k cs g c g', l.problem a.examples a.background = .ok p ∧ k < l.settings.clauses ∧
    p.learnClauses k a.gen = some (some cs, g) ∧ p.learnClause g = some (c, g') ∧
      c.stop = .unboundedWheel

theorem MeetsUnboundedWheel.roulette {a : Attempt} (h : l.MeetsUnboundedWheel a) :
    l.settings.strategy = .roulette := by
  obtain ⟨p, k, cs, g, c, g', hp, -, -, hc, hstop⟩ := h
  have hroulette := Problem.roulette_of_learnClause hc hstop
  rwa [Settings.eq_resolved (problem_eq_ok_iff.1 hp).settings] at hroulette

theorem Poses.meetsUnboundedWheel_iff {a : Attempt} (h : l.Poses a.examples a.background p) :
    l.MeetsUnboundedWheel a ↔
      ∃ g', p.learnClauses p.settings.clauses a.gen = some (none, g') := by
  constructor
  · rintro ⟨p', k, cs, g, c, g', hp, hk, hcs, hc, hstop⟩
    cases hp.symm.trans (problem_eq_ok_iff.2 h)
    rw [← h.clauses_eq] at hk
    exact ⟨g', Problem.learnClauses_of_unbounded hk hcs hc hstop⟩
  · rintro ⟨g', hnone⟩
    obtain ⟨k, cs, g, c, hk, hcs, hc, hstop⟩ := Problem.exists_unbounded_of_learnClauses hnone
    rw [h.clauses_eq] at hk
    exact ⟨p, k, cs, g, c, g', problem_eq_ok_iff.2 h, hk, hcs, hc, hstop⟩

inductive Turn (l : Learner) (a : Attempt) : Outcome → Learner → Prop
  | learned {rules : Rules} (fittable : l.Fittable a.examples)
      (target : rules.target = l.targetName)
      (arity : ∀ m ∈ l.modes, m.predicate = l.targetName → rules.arity = m.arity)
      (length : rules.clauses.length = l.settings.clauses)
      (room : l.settings.clauses ≤ clauseCapacity) (bounded : ¬ l.MeetsUnboundedWheel a) :
      Turn l a (.learned rules) { l with rules := some rules }
  | refused {e : Error} (h : ¬ l.Fittable a.examples) : Turn l a (.refused e) l
  | brokenOff (fittable : l.Fittable a.examples)
      (h : clauseCapacity < l.settings.clauses ∨ l.MeetsUnboundedWheel a) : Turn l a .brokenOff l
  | unanswered (fittable : l.Fittable a.examples) (room : l.settings.clauses ≤ clauseCapacity)
      (bounded : ¬ l.MeetsUnboundedWheel a)
      (h : Random.Fair a.gen → 2 ^ 64 ≤ a.examples.length) : Turn l a .unanswered l

theorem turn_attempt (l : Learner) (a : Attempt) : l.Turn a (l.attempt a).1 (l.attempt a).2 := by
  obtain ⟨o, l', g', heq, hfit⟩ := l.exists_fit a.examples a.background a.gen
  simp only [attempt, heq]
  cases hfit with
  | refused hp =>
      refine .refused fun h => ?_
      obtain ⟨p, hp'⟩ := h.exists_problem a.background
      cases hp.symm.trans hp'
  | crowded hposes hfull =>
      rw [hposes.clauses_eq] at hfull
      exact .brokenOff hposes.fittable (.inl hfull)
  | unbounded hposes _ hnone =>
      exact .brokenOff hposes.fittable (.inr (hposes.meetsUnboundedWheel_iff.2 ⟨_, hnone⟩))
  | unanswered hposes hroom hnone =>
      rw [hposes.clauses_eq] at hroom
      refine .unanswered hposes.fittable hroom (fun hmeets => ?_) fun hg => ?_
      · obtain ⟨g', h⟩ := hposes.meetsUnboundedWheel_iff.1 hmeets
        cases h.symm.trans hnone
      · by_contra hlength
        rw [← hposes.length_examples, not_le] at hlength
        exact Problem.learnClauses_ne_none hlength _ hg hnone
  | learned hposes hroom hlearn =>
      have hlength := (Problem.ensemble_of_learnClauses hlearn).length_eq _ rfl
      rw [hposes.clauses_eq] at hroom hlength
      refine .learned hposes.fittable (target_eq_of_ofModes hposes.space)
        (fun m hm hmp => length_targetTypes hposes.space hm hmp) hlength hroom fun hmeets => ?_
      obtain ⟨g', h⟩ := hposes.meetsUnboundedWheel_iff.1 hmeets
      cases h.symm.trans hlearn

section Turn

variable {a : Attempt} {o : Outcome} {l' : Learner} {rules : Rules}

theorem Turn.rules_eq (h : l.Turn a o l') : l'.rules = o.rules?.or l.rules := by
  cases h <;> rfl

theorem Turn.exists_learned_iff (h : l.Turn a o l') : (∃ rules, o = .learned rules) ↔
    l.Fittable a.examples ∧ o ≠ .brokenOff ∧ o ≠ .unanswered := by
  cases h with
  | learned fittable =>
      exact iff_of_true ⟨_, rfl⟩ ⟨fittable, nofun, nofun⟩
  | refused h => exact iff_of_false nofun fun hf => h hf.1
  | brokenOff => exact iff_of_false nofun fun hf => hf.2.1 rfl
  | unanswered => exact iff_of_false nofun fun hf => hf.2.2 rfl

theorem Turn.of_learned (h : l.Turn a (.learned rules) l') :
    l' = { l with rules := some rules } ∧ rules.target = l.targetName ∧
      (∀ m ∈ l.modes, m.predicate = l.targetName → rules.arity = m.arity) ∧
      rules.clauses.length = l.settings.clauses := by
  cases h with
  | learned _ target arity length => exact ⟨rfl, target, arity, length⟩

theorem Turn.eq_self (h : l.Turn a o l') (ho : ∀ rules, o ≠ .learned rules) : l' = l := by
  cases h with
  | learned => exact absurd rfl (ho _)
  | _ => rfl

theorem Turn.eq_brokenOff_iff (h : l.Turn a o l') : o = .brokenOff ↔ l.Fittable a.examples ∧
    (clauseCapacity < l.settings.clauses ∨ l.MeetsUnboundedWheel a) := by
  have hbounded (room : l.settings.clauses ≤ clauseCapacity)
      (bounded : ¬ l.MeetsUnboundedWheel a) :
      ¬ (clauseCapacity < l.settings.clauses ∨ l.MeetsUnboundedWheel a) := by
    rintro (hfull | hmeets)
    · exact Nat.not_lt_of_le room hfull
    · exact bounded hmeets
  cases h with
  | learned _ _ _ _ room bounded => exact iff_of_false nofun fun h => hbounded room bounded h.2
  | refused h => exact iff_of_false nofun fun hf => h hf.1
  | brokenOff fittable h => exact iff_of_true rfl ⟨fittable, h⟩
  | unanswered _ room bounded => exact iff_of_false nofun fun h => hbounded room bounded h.2

theorem Turn.ne_unanswered (h : l.Turn a o l') (hg : Random.Fair a.gen)
    (hlength : a.examples.length < 2 ^ 64) : o ≠ .unanswered := by
  rintro rfl
  cases h with
  | unanswered _ _ _ h => exact absurd hlength (Nat.not_lt_of_le (h hg))

theorem exists_learned_of_best {G : Type} [RandomSource G] {g : G} (hf : l.Fittable examples)
    (hbest : l.settings.strategy = .best) (hroom : l.settings.clauses ≤ clauseCapacity)
    (hg : Random.Fair g) (hlength : examples.length < 2 ^ 64) :
    ∃ rules, (l.fit examples background g).1 = .learned rules ∧
      rules.clauses.length = l.settings.clauses := by
  have hturn := l.turn_attempt ⟨G, examples, background, g⟩
  have hwhole : (l.attempt ⟨G, examples, background, g⟩).1 ≠ .brokenOff := by
    intro hbroken
    rcases (hturn.eq_brokenOff_iff.1 hbroken).2 with hfull | hmeets
    · exact absurd hfull (Nat.not_lt_of_le hroom)
    · cases hbest.symm.trans hmeets.roulette
  obtain ⟨rules, hrules⟩ :=
    hturn.exists_learned_iff.2 ⟨hf, hwhole, hturn.ne_unanswered hg hlength⟩
  rw [hrules] at hturn
  exact ⟨rules, hrules, hturn.of_learned.2.2.2⟩

end Turn

theorem rules_attempts (l : Learner) (as : List Attempt) :
    (l.attempts as).2.rules =
      ((l.attempts as).1.filterMap Outcome.rules?).getLast?.or l.rules := by
  induction as generalizing l with
  | nil => rfl
  | cons a as ih =>
      have hrules := (l.turn_attempt a).rules_eq
      simp only [attempts, ih, hrules]
      cases ho : (l.attempt a).1.rules? with
      | none => rw [List.filterMap_cons_none ho, Option.none_or]
      | some rules =>
          rw [List.filterMap_cons_some ho, List.getLast?_cons, Option.some_or, Option.or_some,
            Option.some_or]

theorem answers_eq_notFitted_iff {α : Type} {queries : List Fact}
    (ask : Rules → View → Fact → α) :
    l.answers queries background ask = .error .notFitted ↔ l.rules = none := by
  simp only [answers]
  cases l.rules with
  | none => exact iff_of_true rfl rfl
  | some rules =>
      refine iff_of_false (fun h => ?_) (fun h => by cases h)
      dsimp only at h
      split at h <;> cases h

theorem predict_eq_notFitted_iff {queries : List Fact} :
    l.predict queries background = .error .notFitted ↔ l.rules = none := by
  rw [← answers_eq_notFitted_iff Rules.score]
  simp only [predict, bind, Except.bind, pure, Except.pure, scores]
  split
  · next h => rw [h]
  · next h =>
      rw [h]
      split <;> exact iff_of_false (fun h => by cases h) (fun h => by cases h)

theorem rules_attempts_eq_none_iff (l : Learner) (as : List Attempt) :
    (l.attempts as).2.rules = none ↔
      l.rules = none ∧ ∀ o ∈ (l.attempts as).1, o.rules? = none := by
  rw [rules_attempts, Option.or_eq_none_iff, List.getLast?_eq_none_iff, List.filterMap_eq_nil_iff,
    and_comm]

/-- An attempt replaces the rules as a whole or changes nothing, so after any attempts the rules are
those of the last that succeeded. One that is in order breaks off where there is no room for its
clauses or one of its searches ends at a wheel without a finite total, and nowhere else; it comes to
an end if its source is fair. -/
theorem attempt_replaces_or_keeps (l : Learner) (a : Attempt) (as : List Attempt) :
    ((∃ rules, (l.attempt a).1 = .learned rules) ↔ l.Fittable a.examples ∧
        (l.attempt a).1 ≠ .brokenOff ∧ (l.attempt a).1 ≠ .unanswered) ∧
      (∀ rules, (l.attempt a).1 = .learned rules →
        (l.attempt a).2 = { l with rules := some rules } ∧
          rules.target = l.targetName ∧
          (∀ m ∈ l.modes, m.predicate = l.targetName → rules.arity = m.arity) ∧
          rules.clauses.length = l.settings.clauses) ∧
      ((∀ rules, (l.attempt a).1 ≠ .learned rules) → (l.attempt a).2 = l) ∧
      ((l.attempt a).1 = .brokenOff ↔ l.Fittable a.examples ∧
        (clauseCapacity < l.settings.clauses ∨ l.MeetsUnboundedWheel a)) ∧
      (l.MeetsUnboundedWheel a → l.settings.strategy = .roulette) ∧
      (Random.Fair a.gen → a.examples.length < 2 ^ 64 → (l.attempt a).1 ≠ .unanswered) ∧
      (l.attempts as).2.rules =
        ((l.attempts as).1.filterMap Outcome.rules?).getLast?.or l.rules ∧
      ∀ queries background : List Fact,
        let unfitted := l.rules = none ∧ ∀ o ∈ (l.attempts as).1, o.rules? = none
        ((l.attempts as).2.scores queries background = .error .notFitted ↔ unfitted) ∧
          ((l.attempts as).2.predict queries background = .error .notFitted ↔ unfitted) ∧
          ((l.attempts as).2.features queries background = .error .notFitted ↔ unfitted) := by
  have hturn := l.turn_attempt a
  refine ⟨hturn.exists_learned_iff, fun rules hrules => (hrules ▸ hturn).of_learned,
    hturn.eq_self, hturn.eq_brokenOff_iff, MeetsUnboundedWheel.roulette, hturn.ne_unanswered,
    l.rules_attempts as, fun queries background => ?_⟩
  rw [← rules_attempts_eq_none_iff]
  exact ⟨answers_eq_notFitted_iff _, predict_eq_notFitted_iff, answers_eq_notFitted_iff _⟩

theorem brokenOff_of_infinite_share :
    let modes : List Mode := [⟨"t", [⟨.input, "x"⟩]⟩, ⟨"p", [⟨.input, "x"⟩]⟩]
    let l := Learner.new .regression modes "t" { criterion := some .gini, strategy := .roulette }
    let examples : List Fact :=
      [⟨9e153, "t", ["a"]⟩, ⟨9e153, "t", ["b"]⟩, ⟨9e153, "t", ["c"]⟩, ⟨0.0, "t", ["d"]⟩]
    let background : List Fact := [⟨1.0, "p", ["a"]⟩, ⟨1.0, "p", ["b"]⟩, ⟨1.0, "p", ["c"]⟩]
    let a : Attempt := ⟨SplitMix, examples, background, ⟨1⟩⟩
    l.Fittable a.examples ∧ ¬ ∃ rules, (l.attempt a).1 = .learned rules := by
  intro modes l examples background a
  have hproblem : (l.problem examples background).toOption.isSome = true := by decide +kernel
  have hnone : (l.attempt a).1.rules?.isNone = true := by decide +kernel
  refine ⟨fittable_of_isSome hproblem, ?_⟩
  rintro ⟨rules, hrules⟩
  rw [hrules] at hnone
  cases hnone

end Learner

end RuleInduction
