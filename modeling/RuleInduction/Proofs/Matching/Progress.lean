import RuleInduction.Proofs.Matching.Survivors

namespace RuleInduction

def progress (v : View) (b : Bindings) (c : Clause) : Nat :=
  (survivors v c b).length

def firstFailing? (v : View) (b : Bindings) (c : Clause) : Option Nat :=
  if progress v b c < c.length then some (progress v b c) else none

theorem progress_le (v : View) (b : Bindings) (c : Clause) : progress v b c ≤ c.length :=
  length_survivors_le v c b

theorem progress_cons_of_nil {v : View} {b : Bindings} {l : Literal} {c : Clause}
    (h : l.kept v b = []) : progress v b (l :: c) = 0 := by
  rw [progress, survivors_cons_of_nil h, List.length_nil]

theorem progress_cons_of_ne_nil {v : View} {b : Bindings} {l : Literal} {c : Clause}
    (h : l.kept v b ≠ []) :
    progress v b (l :: c) = progress v (l.rebind (l.kept v b) b) c + 1 := by
  rw [progress, survivors_cons_of_ne_nil h, List.length_cons, progress]

theorem progress_eq_min (v : View) (b : Bindings) (c d : Clause) :
    progress v b c = min c.length (progress v b (c ++ d)) := by
  induction c generalizing b with
  | nil => rw [List.length_nil, Nat.zero_min]; rfl
  | cons l c ih =>
      simp only [progress, List.cons_append] at ih ⊢
      by_cases h : l.kept v b = []
      · rw [survivors_cons_of_nil h, survivors_cons_of_nil h]
        rfl
      · rw [survivors_cons_of_ne_nil h, survivors_cons_of_ne_nil h, List.length_cons, ih,
          List.length_cons, List.length_cons, Nat.succ_min_succ]

def settled (v : View) (b : Bindings) (c : Clause) : Bindings :=
  (pass matched v c b).bindings

theorem settled_append {v : View} {b : Bindings} {c : Clause} (h : progress v b c = c.length)
    (d : Clause) : settled v b (c ++ d) = settled v (settled v b c) d := by
  simp only [settled]
  induction c generalizing b with
  | nil => rfl
  | cons l c ih =>
      by_cases hl : l.kept v b = []
      · rw [progress_cons_of_nil hl] at h
        cases h
      · rw [progress_cons_of_ne_nil hl] at h
        rw [List.cons_append, pass_cons_of_ne_nil hl, pass_cons_of_ne_nil hl]
        exact ih (Nat.succ.inj h)

theorem progress_append {v : View} {b : Bindings} {c : Clause} (h : progress v b c = c.length)
    (d : Clause) : progress v b (c ++ d) = c.length + progress v (settled v b c) d := by
  simp only [settled]
  induction c generalizing b with
  | nil => exact (Nat.zero_add _).symm
  | cons l c ih =>
      by_cases hl : l.kept v b = []
      · rw [progress_cons_of_nil hl] at h
        cases h
      · rw [progress_cons_of_ne_nil hl] at h
        rw [List.cons_append, progress_cons_of_ne_nil hl, ih (Nat.succ.inj h), List.length_cons,
          pass_cons_of_ne_nil hl, Nat.add_right_comm]

theorem kept_ne_nil_of_progress {v : View} {b : Bindings} {c : Clause} {l : Literal}
    (h : progress v b (c ++ [l]) = (c ++ [l]).length) :
    progress v b c = c.length ∧ l.kept v (settled v b c) ≠ [] := by
  have hc : progress v b c = c.length := by
    rw [progress_eq_min v b c [l], h, List.length_append]
    exact Nat.min_eq_left (Nat.le_add_right _ _)
  refine ⟨hc, fun hnil => ?_⟩
  rw [progress_append hc, progress_cons_of_nil hnil, List.length_append] at h
  simp at h

theorem binaryStrengths_eq (v : View) (b : Bindings) (c : Clause) :
    binaryStrengths v b c = List.replicate (progress v b c) 1.0 ++
      List.replicate (c.length - progress v b c) 0.0 := by
  have hone : (survivors v c b).map matched = List.replicate (progress v b c) 1.0 :=
    List.map_const'
  rw [binaryStrengths, strengths_pass, hone]
  rfl

theorem binaryStrengths_eq_ones {v : View} {b : Bindings} {c : Clause} :
    binaryStrengths v b c = List.replicate c.length 1.0 ↔ progress v b c = c.length := by
  have hne : (0.0 : Float) ≠ 1.0 := by decide
  have hle := progress_le v b c
  rw [binaryStrengths_eq]
  constructor
  · intro h
    by_contra hlt
    have hzero : (0.0 : Float) ∈ List.replicate c.length (1.0 : Float) := by
      rw [← h]
      refine List.mem_append_right _ (List.mem_replicate.2 ⟨?_, rfl⟩)
      omega
    exact hne (List.eq_of_mem_replicate hzero)
  · intro h
    rw [h, Nat.sub_self, List.replicate_zero, List.append_nil]

theorem findIdx?_ones_zeros (m k : Nat) :
    (List.replicate m (1.0 : Float) ++ List.replicate k 0.0).findIdx? (· ≤ 0.0) =
      if 0 < k then some m else none := by
  have hone : decide ((1.0 : Float) ≤ 0.0) = false := by decide
  have hzero : decide ((0.0 : Float) ≤ 0.0) = true := by decide
  induction m with
  | zero =>
      cases k with
      | zero => rfl
      | succ k => simp [List.replicate_succ, List.findIdx?_cons, hzero]
  | succ m ih =>
      rw [List.replicate_succ, List.cons_append, List.findIdx?_cons, hone, ih]
      by_cases hk : 0 < k <;> simp [hk]

theorem findIdx?_binaryStrengths (v : View) (b : Bindings) (c : Clause) :
    (binaryStrengths v b c).findIdx? (· ≤ 0.0) = firstFailing? v b c := by
  rw [binaryStrengths_eq, findIdx?_ones_zeros, firstFailing?]
  simp only [Nat.sub_pos_iff_lt]

theorem getLastD_binaryStrengths (v : View) (b : Bindings) (c : Clause) (l : Literal) :
    (binaryStrengths v b (c ++ [l])).getLastD 0.0 > 0.0 ↔
      progress v b (c ++ [l]) = c.length + 1 := by
  have hone : (1.0 : Float) > 0.0 := by decide
  have hzero : ¬ (0.0 : Float) > 0.0 := by decide
  have hle := progress_le v b (c ++ [l])
  rw [List.length_append, List.length_singleton] at hle
  rw [binaryStrengths_eq, List.length_append, List.length_singleton]
  rcases Nat.eq_or_lt_of_le hle with h | h
  · rw [h, Nat.sub_self, List.replicate_zero, List.append_nil, List.replicate_succ',
      List.getLastD_concat]
    exact ⟨fun _ => rfl, fun _ => hone⟩
  · obtain ⟨k, hk⟩ := Nat.exists_eq_succ_of_ne_zero (Nat.sub_ne_zero_of_lt h)
    rw [hk, List.replicate_succ', ← List.append_assoc, List.getLastD_concat]
    exact ⟨fun h' => absurd h' hzero, fun h' => absurd h' (Nat.ne_of_lt h)⟩

theorem drop_strengths_pass (score : List Row → Float) {v : View} {b : Bindings} {c : Clause}
    {k : Nat} (h : progress v b c ≤ k) :
    (pass score v c b).strengths.drop k = List.replicate (c.length - k) 0.0 := by
  rw [progress] at h
  rw [strengths_pass, List.drop_append, List.drop_eq_nil_of_le (by rwa [List.length_map]),
    List.length_map, List.nil_append, List.drop_replicate]
  congr 1
  omega

theorem progress_le_of_kept_nil {v : View} {b : Bindings} {body : Clause} {k : Nat} {l : Literal}
    (hl : body[k]? = some l) (h : l.kept v (settled v b (body.take k)) = []) :
    progress v b body ≤ k := by
  obtain ⟨hk, rfl⟩ := List.getElem?_eq_some_iff.1 hl
  by_contra hlt
  have hprefix : progress v b (body.take k ++ [body[k]]) = (body.take k ++ [body[k]]).length := by
    have hmin := progress_eq_min v b (body.take (k + 1)) (body.drop (k + 1))
    rw [List.take_append_drop, List.take_succ_eq_append_getElem hk] at hmin
    rw [hmin, List.length_append, List.length_singleton, List.length_take]
    omega
  exact (kept_ne_nil_of_progress hprefix).2 h

theorem take_binaryStrengths_append (v : View) (b : Bindings) (c d : Clause) :
    (binaryStrengths v b (c ++ d)).take c.length = binaryStrengths v b c := by
  have hmin := progress_eq_min v b c d
  have hzeros : min (c.length - progress v b (c ++ d))
      ((c ++ d).length - progress v b (c ++ d)) = c.length - progress v b c := by
    rw [List.length_append]
    omega
  rw [binaryStrengths_eq, binaryStrengths_eq, List.take_append, List.take_replicate,
    List.take_replicate, List.length_replicate, ← hmin, hzeros]

theorem drop_binaryStrengths_of_matched {v : View} {b : Bindings} {c : Clause}
    (h : progress v b c = c.length) (d : Clause) :
    (binaryStrengths v b (c ++ d)).drop c.length = binaryStrengths v (settled v b c) d := by
  rw [binaryStrengths_eq, binaryStrengths_eq, progress_append h, List.length_append,
    Nat.add_sub_add_left, ← List.replicate_append_replicate, List.append_assoc]
  exact List.drop_left' List.length_replicate

theorem drop_binaryStrengths_of_failed {v : View} {b : Bindings} {c : Clause}
    (h : progress v b c ≠ c.length) (d : Clause) :
    (binaryStrengths v b (c ++ d)).drop c.length = List.replicate d.length 0.0 := by
  have hle := progress_le v b c
  have hmin := progress_eq_min v b c d
  have hstop : progress v b (c ++ d) ≤ c.length := by omega
  rw [binaryStrengths, drop_strengths_pass matched hstop, List.length_append,
    Nat.add_sub_cancel_left]

theorem binaryStrengths_append (v : View) (b : Bindings) (c d : Clause) :
    (binaryStrengths v b (c ++ d)).take c.length = binaryStrengths v b c ∧
    (binaryStrengths v b c).length = c.length ∧
    (∃ m ≤ c.length,
      binaryStrengths v b c = List.replicate m 1.0 ++ List.replicate (c.length - m) 0.0) ∧
    (binaryStrengths v b c ≠ List.replicate c.length 1.0 →
      (binaryStrengths v b (c ++ d)).drop c.length = List.replicate d.length 0.0) ∧
    (binaryStrengths v b c = List.replicate c.length 1.0 →
      (binaryStrengths v b (c ++ d)).drop c.length = binaryStrengths v (settled v b c) d) := by
  refine ⟨take_binaryStrengths_append v b c d, length_strengths_pass _ _ _ _, ?_, ?_, ?_⟩
  · exact ⟨progress v b c, progress_le v b c, binaryStrengths_eq v b c⟩
  · intro hfailed
    exact drop_binaryStrengths_of_failed (mt binaryStrengths_eq_ones.2 hfailed) d
  · intro hmatched
    exact drop_binaryStrengths_of_matched (binaryStrengths_eq_ones.1 hmatched) d

theorem binaryStrengths_append_of_unknown_bird :
    let v := (Store.compile [⟨1.0, "bird", ["tweety"]⟩, ⟨1.0, "red", ["rio"]⟩]).view
    let c : Clause := [⟨"bird", [.var "X"]⟩, ⟨"red", [.var "X"]⟩]
    let d : Clause := [⟨"bird", [.var "_"]⟩]
    binaryStrengths v ∅ c ≠ [1.0, 1.0] ∧ binaryStrengths v ∅ d = [1.0] ∧
      (binaryStrengths v ∅ (c ++ d)).take 2 = [1.0, 0.0] ∧
      (binaryStrengths v ∅ (c ++ d)).drop 2 = [0.0] := by
  intro v c d
  have hc : binaryStrengths v ∅ c = [1.0, 0.0] := rfl
  have hfailed : binaryStrengths v ∅ c ≠ [1.0, 1.0] := by
    rw [hc]
    decide
  have h := binaryStrengths_append v ∅ c d
  exact ⟨hfailed, rfl, h.1.trans hc, h.2.2.2.1 hfailed⟩

end RuleInduction
