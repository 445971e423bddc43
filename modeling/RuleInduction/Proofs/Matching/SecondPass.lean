import Mathlib.Data.List.Basic
import RuleInduction.Proofs.Matching.Narrowing

namespace RuleInduction

variable {v : View} {b b' : Bindings} {c : Clause}

theorem Literal.kept_sublist_of_within (l : Literal) (v : View) (hb : b.Within b') :
    (l.kept v b).Sublist (l.kept v b') :=
  List.monotone_filter_right _ fun _ => admits_of_within hb rfl

theorem sublist_survivors_of_within (hb : b.Within b') {k : Nat} {rows : List Row}
    (h : (survivors v c b)[k]? = some rows) :
    ∃ rows', (survivors v c b')[k]? = some rows' ∧ rows.Sublist rows' := by
  induction c generalizing b b' k with
  | nil => cases h
  | cons l c ih =>
      have hsub := l.kept_sublist_of_within v hb
      by_cases hl : l.kept v b = []
      · rw [survivors_cons_of_nil hl] at h
        cases h
      · have hl' : l.kept v b' ≠ [] := fun hnil => hl (List.sublist_nil.1 (hnil ▸ hsub))
        rw [survivors_cons_of_ne_nil hl] at h
        rw [survivors_cons_of_ne_nil hl']
        cases k with
        | zero =>
            cases h
            exact ⟨_, rfl, hsub⟩
        | succ k => exact ih (l.within_rebind hb (hsub.map Row.values).subset) h

theorem lt_progress_of_strength {score : List Row → Float} {k : Nat} {w : Float}
    (h : (pass score v c b).strengths[k]? = some w) (hw : w ≠ 0.0) : k < progress v b c := by
  by_contra hk
  rw [strengths_pass, List.getElem?_append_right (by simpa [progress] using hk)] at h
  exact hw (List.eq_of_mem_replicate (List.mem_of_getElem? h))

theorem binaryStrength_of_lt {k : Nat} (h : k < progress v b c) :
    (binaryStrengths v b c)[k]? = some 1.0 := by
  rw [binaryStrengths_eq, List.getElem?_append_left (by rwa [List.length_replicate]),
    List.getElem?_replicate_of_lt h]

theorem weightedStrengths_within_binary (v : View) (b : Bindings) (body : Clause) :
    let first := survivors v body b
    let second := survivors v body (settled v b body)
    (∀ (k : Nat) (w : Float), (weightedStrengths v b body)[k]? = some w → w ≠ 0.0 →
      (binaryStrengths v b body)[k]? = some 1.0) ∧
    (∀ (k : Nat) (rows : List Row), second[k]? = some rows →
      ∃ rows', first[k]? = some rows' ∧ rows.Sublist rows') ∧
    binaryStrengths v b body =
      first.map matched ++ List.replicate (body.length - first.length) 0.0 ∧
    weightedStrengths v b body =
      second.map meanWeight ++ List.replicate (body.length - second.length) 0.0 ∧
    (binaryStrengths v b body).length = body.length ∧
    (weightedStrengths v b body).length = body.length ∧
    ∀ (k : Nat) (l : Literal), body[k]? = some l →
      (l.kept v (settled v b (body.take k)) = [] →
        (binaryStrengths v b body).drop k = List.replicate (body.length - k) 0.0) ∧
      (l.kept v (settled v (settled v b body) (body.take k)) = [] →
        (weightedStrengths v b body).drop k = List.replicate (body.length - k) 0.0) := by
  intro first second
  have hrows (k : Nat) (rows : List Row) (h : second[k]? = some rows) :
      ∃ rows', first[k]? = some rows' ∧ rows.Sublist rows' :=
    sublist_survivors_of_within (settled_within v b body) h
  refine ⟨?_, hrows, strengths_pass _ _ _ _, strengths_pass _ _ _ _, length_strengths_pass _ _ _ _,
    length_strengths_pass _ _ _ _, fun k l hl => ⟨?_, ?_⟩⟩
  · intro k w h hw
    obtain ⟨rows', hfirst, _⟩ :=
      hrows k _ (List.getElem?_eq_getElem (lt_progress_of_strength h hw))
    exact binaryStrength_of_lt (List.getElem?_eq_some_iff.1 hfirst).1
  · intro hnil
    exact drop_strengths_pass matched (progress_le_of_kept_nil hl hnil)
  · intro hnil
    exact drop_strengths_pass meanWeight (progress_le_of_kept_nil hl hnil)

theorem weightedStrengths_within_binary_of_movies :
    let v := (Store.compile [⟨3.5, "movie", ["heat", "john"]⟩, ⟨9.0, "movie", ["jaws", "john"]⟩,
      ⟨-1.0, "seen", ["heat"]⟩]).view
    let c : Clause := [⟨"movie", [.var "B", .const "john"]⟩, ⟨"seen", [.var "B"]⟩,
      ⟨"liked", [.var "B"]⟩]
    weightedStrengths v ∅ c = [3.5, -1.0, 0.0] ∧
      (survivors v c ∅)[0]? = some [⟨["heat", "john"], 3.5⟩, ⟨["jaws", "john"], 9.0⟩] ∧
      (survivors v c (settled v ∅ c))[0]? = some [⟨["heat", "john"], 3.5⟩] ∧
      (∃ rows, (survivors v c ∅)[0]? = some rows ∧
        [⟨["heat", "john"], 3.5⟩].Sublist rows) ∧
      (binaryStrengths v ∅ c)[1]? = some 1.0 ∧ (weightedStrengths v ∅ c).drop 2 = [0.0] := by
  intro v c
  have hweighted : weightedStrengths v ∅ c = [3.5, -1.0, 0.0] := by decide +kernel
  have hsecond : (survivors v c (settled v ∅ c))[0]? = some [⟨["heat", "john"], 3.5⟩] := rfl
  have h := weightedStrengths_within_binary v ∅ c
  refine ⟨hweighted, rfl, hsecond, h.2.1 0 _ hsecond, ?_, ?_⟩
  · exact h.1 1 (-1.0) (hweighted ▸ rfl) (by decide)
  · exact (h.2.2.2.2.2.2 2 _ rfl).2 rfl

end RuleInduction
