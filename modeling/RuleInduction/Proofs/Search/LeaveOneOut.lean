import Mathlib
import RuleInduction.Proofs.Search.Subjects
import RuleInduction.Proofs.Store

namespace RuleInduction

theorem beq_zero_iff {x : Float} : (x == 0.0) = true ↔ x = 0.0 ∨ x = -0.0 := by
  rw [Float.beq_iff_ne_nan_and_eq]
  constructor
  · rintro ⟨_, _, h | ⟨h, _⟩ | ⟨h, _⟩⟩
    exacts [Or.inl h, Or.inl h, Or.inr h]
  · rintro (rfl | rfl)
    · exact ⟨by decide, by decide, Or.inl rfl⟩
    · exact ⟨by decide, by decide, Or.inr (Or.inr ⟨rfl, rfl⟩)⟩

namespace Fact

def hasWeight (e : Fact) : Bool :=
  !(e.weight == 0.0)

theorem hasWeight_iff {e : Fact} : e.hasWeight = true ↔ e.weight ≠ 0.0 ∧ e.weight ≠ -0.0 := by
  rw [hasWeight, Bool.not_eq_true', Bool.eq_false_iff, Ne, beq_zero_iff, not_or]

end Fact

def exampleRows (examples : List Fact) : List Row :=
  (examples.filter fun e => e.weight ≠ 0.0 ∧ e.weight ≠ -0.0).map Fact.row

theorem exampleRows_eq (examples : List Fact) :
    exampleRows examples = (examples.filter Fact.hasWeight).map Fact.row := by
  have h : Fact.hasWeight = fun e => decide (e.weight ≠ 0.0 ∧ e.weight ≠ -0.0) :=
    funext fun e => Bool.eq_iff_iff.2 (Fact.hasWeight_iff.trans decide_eq_true_iff.symm)
  rw [exampleRows, h]

-- Of the elements that pass the test, the one at place `i` comes after as many as there are among
-- the first `i`.
theorem eraseIdx_filter {α : Type} {p : α → Bool} {xs : List α} {i : Nat} {x : α}
    (hi : xs[i]? = some x) (hx : p x = true) :
    (xs.filter p).eraseIdx ((xs.take i).countP p) = (xs.eraseIdx i).filter p := by
  induction xs generalizing i with
  | nil => cases hi
  | cons y xs ih =>
      cases i with
      | zero =>
          cases hi
          rw [List.filter_cons_of_pos hx]
          rfl
      | succ i =>
          have h := ih hi
          rw [List.take_succ_cons, List.eraseIdx_cons_succ]
          by_cases hy : p y = true
          · rw [List.filter_cons_of_pos hy, List.filter_cons_of_pos hy, List.countP_cons_of_pos hy,
              List.eraseIdx_cons_succ, h]
          · rw [List.filter_cons_of_neg hy, List.filter_cons_of_neg hy, List.countP_cons_of_neg hy,
              h]

section OwnRows

variable {target : Predicate} {examples : List Fact} {i : Nat} {e : Fact}

theorem getElem?_ownRows (next : Nat) (he : examples[i]? = some e) :
    (ownRows target next examples)[i]? = some (if e.hasWeight then
      some ⟨target, next + (examples.take i).countP Fact.hasWeight⟩ else none) := by
  induction examples generalizing i next with
  | nil => cases he
  | cons d examples ih =>
      cases i with
      | zero =>
          obtain rfl := Option.some.inj he
          by_cases hd : d.weight == 0.0 <;> simp [ownRows, Fact.hasWeight, hd]
      | succ i =>
          have h (next : Nat) := ih next he
          by_cases hd : d.weight == 0.0
          · simp only [ownRows, hd, if_true, List.getElem?_cons_succ, h, List.take_succ_cons]
            rw [List.countP_cons_of_neg (by simp [Fact.hasWeight, hd])]
          · simp only [ownRows, hd, Bool.false_eq_true, if_false, List.getElem?_cons_succ, h,
              List.take_succ_cons]
            rw [List.countP_cons_of_pos (by simp [Fact.hasWeight, hd]), Nat.add_right_comm,
              Nat.add_assoc next]

end OwnRows

namespace ClauseSearch

variable {space : SearchSpace} {store : Store} {limits : SearchLimits} {examples : List Fact}

theorem rows_trainingStore (hrec : limits.recursive = true)
    (htarget : ∀ e ∈ examples, e.predicate = space.target) :
    (trainingStore store limits examples).rows space.target =
      store.rows space.target ++ exampleRows examples := by
  have hall : ∀ e ∈ examples.filter Fact.hasWeight, decide (e.predicate = space.target) = true :=
    fun e he => decide_eq_true (htarget e ((List.mem_filter.1 he).1))
  rw [trainingStore, if_pos hrec, Store.rows_merge, Store.rows_compile, exampleRows_eq]
  exact congrArg _ (congrArg _ (List.filter_eq_self.2 hall))

theorem relation?_trainingStore_of_ne {p : Predicate}
    (htarget : ∀ e ∈ examples, e.predicate = space.target) (hp : p ≠ space.target) :
    (trainingStore store limits examples).relation? p = store.relation? p := by
  rw [trainingStore]
  split
  · have hnone : ¬ ∃ e ∈ examples.filter (fun e => !(e.weight == 0.0)), e.predicate = p := by
      rintro ⟨e, he, rfl⟩
      exact hp (htarget e ((List.mem_filter.1 he).1))
    rw [Store.relation?_merge, Store.relation?_compile, if_neg hnone]
  · rfl

theorem getElem?_views {i : Nat} {e : Fact} (he : examples[i]? = some e) :
    (views space.target store limits examples)[i]? = some
      (if limits.recursive && e.hasWeight then
        (trainingStore store limits examples).viewWithout
          ⟨space.target, (store.rows space.target).length + (examples.take i).countP Fact.hasWeight⟩
      else (trainingStore store limits examples).view) := by
  rw [views]
  by_cases hrec : limits.recursive = true
  · rw [if_pos hrec, List.getElem?_map, getElem?_ownRows _ he]
    by_cases hw : e.hasWeight = true <;> simp [hrec, hw]
  · rw [if_neg hrec, List.getElem?_map, he]
    simp [hrec]

theorem getElem?_subjects {i : Nat} {e : Fact} {subject : Subject} (he : examples[i]? = some e)
    (hs : (start space store limits examples).subjects[i]? = some subject) :
    subject.bindings = .ofHead (headNames space) e.arguments ∧ subject.weight = e.weight ∧
      (views space.target store limits examples)[i]? = some subject.view := by
  simp only [start, List.getElem?_zipWith, he] at hs
  cases hv : (views space.target store limits examples)[i]? with
  | none => simp [hv] at hs
  | some view =>
      simp only [hv, Option.some.injEq] at hs
      subst hs
      exact ⟨rfl, rfl, rfl⟩

theorem rows_of_own_row (hrec : limits.recursive = true)
    (htarget : ∀ e ∈ examples, e.predicate = space.target) {i : Nat} {e : Fact}
    (he : examples[i]? = some e) (hw : e.hasWeight = true) :
    ((trainingStore store limits examples).viewWithout ⟨space.target,
      (store.rows space.target).length + (examples.take i).countP Fact.hasWeight⟩).rows
        space.target = store.rows space.target ++ exampleRows (examples.eraseIdx i) := by
  rw [View.rows_viewWithout rfl, rows_trainingStore hrec htarget,
    List.eraseIdx_append_of_length_le (Nat.le_add_right _ _), Nat.add_sub_cancel_left,
    exampleRows_eq, exampleRows_eq, List.eraseIdx_map, eraseIdx_filter he hw]

theorem rows_of_subjects (space : SearchSpace) (store : Store) (limits : SearchLimits)
    (examples : List Fact) :
    let subjects := (start space store limits examples).subjects
    subjects.length = examples.length ∧
    ∀ (i : Nat) (e : Fact) (subject : Subject),
      examples[i]? = some e → subjects[i]? = some subject →
      subject.bindings = .ofHead (headNames space) e.arguments ∧ subject.weight = e.weight ∧
      (limits.recursive = true → (∀ e ∈ examples, e.predicate = space.target) →
        (e.weight = 0.0 ∨ e.weight = -0.0 →
          subject.view.rows space.target = store.rows space.target ++ exampleRows examples) ∧
        (e.weight ≠ 0.0 → e.weight ≠ -0.0 → subject.view.rows space.target =
          store.rows space.target ++ exampleRows (examples.eraseIdx i)) ∧
        ∀ p, p ≠ space.target → subject.view.relation? p = store.relation? p) ∧
      (limits.recursive = false →
        ∀ p, subject.view.relation? p = store.relation? p) := by
  intro subjects
  have hlen : subjects.length = examples.length := by
    simpa [weights] using congrArg List.length (weights_start space store limits examples)
  refine ⟨hlen, fun i e subject he hs => ?_⟩
  obtain ⟨hbindings, hweight, hview⟩ := getElem?_subjects he hs
  rw [getElem?_views he, Option.some.injEq] at hview
  refine ⟨hbindings, hweight, fun hrec htarget => ⟨?_, ?_, ?_⟩, ?_⟩
  · intro hzero
    have hw : ¬ e.hasWeight = true := by
      rw [Fact.hasWeight_iff]
      rintro ⟨hpos, hneg⟩
      exact hzero.elim hpos hneg
    rw [← hview, if_neg (by simp [hw]), View.rows_view, rows_trainingStore hrec htarget]
  · intro hpos hneg
    have hw : e.hasWeight = true := Fact.hasWeight_iff.2 ⟨hpos, hneg⟩
    rw [← hview, if_pos (by simp [hrec, hw]), rows_of_own_row hrec htarget he hw]
  · intro p hp
    have htraining : (trainingStore store limits examples).relation? p = store.relation? p :=
      relation?_trainingStore_of_ne htarget hp
    rw [← htraining, ← hview]
    split
    · exact View.relation?_viewWithout_of_ne hp.symm
    · exact View.relation?_view
  · intro hrec p
    rw [← hview, if_neg (by simp [hrec]), View.relation?_view, trainingStore,
      if_neg (by simp [hrec])]

theorem rows_of_subjects_twins :
    let space : SearchSpace := ⟨"flies", [⟨"flies", [⟨.input, "animal"⟩]⟩],
      .ofList [("flies", ["animal"])], .empty⟩
    let store := Store.compile [⟨2.0, "flies", ["polly"]⟩, ⟨1.0, "bird", ["tom"]⟩]
    let limits : SearchLimits := ⟨none, none, 1, .mse, .best, true⟩
    let examples : List Fact :=
      [⟨1.0, "flies", ["tom"]⟩, ⟨-0.0, "flies", ["rex"]⟩, ⟨1.0, "flies", ["tom"]⟩]
    let subjects := (start space store limits examples).subjects
    ∃ e e' : Subject, subjects[1]? = some e ∧ subjects[2]? = some e' ∧
      e.view.rows "flies" = [⟨["polly"], 2.0⟩, ⟨["tom"], 1.0⟩, ⟨["tom"], 1.0⟩] ∧
      e'.view.rows "flies" = [⟨["polly"], 2.0⟩, ⟨["tom"], 1.0⟩] ∧
      e'.view.relation? "bird" = some [⟨["tom"], 1.0⟩] := by
  intro space store limits examples subjects
  have htarget : ∀ e ∈ examples, e.predicate = space.target := by simp [examples, space]
  obtain ⟨hlen, h⟩ := rows_of_subjects space store limits examples
  have he : subjects[1]? = some subjects[1] := List.getElem?_eq_getElem (hlen ▸ by decide)
  have he' : subjects[2]? = some subjects[2] := List.getElem?_eq_getElem (hlen ▸ by decide)
  have h₁ := (h 1 _ _ rfl he).2.2.1 rfl htarget
  have h₂ := (h 2 _ _ rfl he').2.2.1 rfl htarget
  refine ⟨_, _, he, he', ?_, ?_, ?_⟩
  · rw [h₁.1 (Or.inr rfl)]
    dsimp only [store, examples, space]
    rfl
  · rw [h₂.2.1 (by decide) (by decide)]
    dsimp only [store, examples, space]
    rfl
  · rw [h₂.2.2 "bird" (by decide)]
    rfl

end ClauseSearch

end RuleInduction
