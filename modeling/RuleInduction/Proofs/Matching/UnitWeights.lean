import RuleInduction.Proofs.FloatCount
import RuleInduction.Proofs.Matching.Assignment
import RuleInduction.Proofs.Matching.Narrowing
import RuleInduction.Proofs.Store

namespace RuleInduction

variable {v : View} {b : Bindings} {c : Clause}

theorem meanWeight_of_ones {rows : List Row} (hne : rows ≠ []) (hlen : rows.length ≤ 2 ^ 53 + 1)
    (hweight : ∀ row ∈ rows, row.weight = 1.0) : meanWeight rows = 1.0 := by
  have hones : rows.map Row.weight = List.replicate rows.length 1.0 := by
    rw [List.eq_replicate_iff]
    refine ⟨List.length_map _, fun w hw => ?_⟩
    obtain ⟨row, hrow, rfl⟩ := List.mem_map.1 hw
    exact hweight row hrow
  rw [meanWeight, hones]
  exact FloatCount.mean_replicate_one (fun h => hne (List.length_eq_zero_iff.1 h)) hlen

theorem pass_congr_score {score score' : List Row → Float}
    (h : ∀ l ∈ c, ∀ rows : List Row, rows ≠ [] → rows.Sublist (v.rows l.predicate) →
      score rows = score' rows) (b : Bindings) : pass score v c b = pass score' v c b := by
  induction c generalizing b with
  | nil => rfl
  | cons l c ih =>
      by_cases hkept : l.kept v b = []
      · rw [pass_cons_of_nil hkept, pass_cons_of_nil hkept]
      · rw [pass_cons_of_ne_nil hkept, pass_cons_of_ne_nil hkept,
          h l List.mem_cons_self _ hkept (l.kept_sublist v b),
          ih fun m hm => h m (List.mem_cons_of_mem l hm)]

theorem progress_settled_le (v : View) (b : Bindings) (c : Clause) :
    progress v (settled v b c) c ≤ progress v b c :=
  progress_mono (fun _ _ => List.Subset.refl _) (settled_within v b c)

theorem settled_take_progress (v : View) (b : Bindings) (c : Clause) :
    settled v b (c.take (progress v b c)) = settled v b c := by
  simp only [settled]
  induction c generalizing b with
  | nil => rfl
  | cons l c ih =>
      by_cases h : l.kept v b = []
      · rw [progress_cons_of_nil h, List.take_zero, pass_cons_of_nil h]
        rfl
      · rw [progress_cons_of_ne_nil h, List.take_succ_cons, pass_cons_of_ne_nil h,
          pass_cons_of_ne_nil h]
        exact ih _

-- The first pass narrows the bindings but keeps every value of the assignment, so the second finds
-- the same rows at each literal that the first matched.
theorem progress_settled_of_holds {t : String → String} {picks : List Row} (hb : b.Allows t)
    (h : Clause.HoldsOf (c.take (progress v b c)) t v picks) :
    progress v (settled v b c) c = progress v b c := by
  refine Nat.le_antisymm (progress_settled_le v b c) ?_
  have hb' : (settled v b c).Allows t :=
    settled_take_progress v b c ▸ allows_bindings_pass matched hb h
  have hmin := progress_eq_min v (settled v b c) (c.take (progress v b c))
    (c.drop (progress v b c))
  rw [List.take_append_drop, progress_of_holds hb' h,
    List.length_take_of_le (progress_le v b c)] at hmin
  exact Nat.le_trans (Nat.le_of_eq hmin) (Nat.min_le_right _ _)

theorem weight_of_rows_compile {facts : List Fact} (h : ∀ e ∈ facts, e.weight = 1.0)
    (p : Predicate) : ∀ row ∈ (Store.compile facts).view.rows p, row.weight = 1.0 := by
  intro row hrow
  rw [View.rows_view, Store.rows_compile, List.mem_map] at hrow
  obtain ⟨e, he, rfl⟩ := hrow
  exact h e (List.mem_filter.1 he).1

theorem length_rows_compile_le (facts : List Fact) (p : Predicate) :
    ((Store.compile facts).view.rows p).length ≤ facts.length := by
  rw [View.rows_view, Store.rows_compile, List.length_map]
  exact List.length_filter_le _ facts

theorem strengths_of_copies {n : Nat} (hn : n ≠ 0) :
    let v := (Store.compile (List.replicate n ⟨1.0, "p", ["a"]⟩)).view
    binaryStrengths v ∅ [⟨"p", [.const "a"]⟩] = [1.0] ∧
      weightedStrengths v ∅ [⟨"p", [.const "a"]⟩] = [mean (List.replicate n 1.0)] := by
  intro v
  have hrows : v.rows "p" = List.replicate n ⟨["a"], 1.0⟩ := by
    simp [v, Store.rows_compile, Fact.row]
  have hkept (b : Bindings) :
      Literal.kept ⟨"p", [.const "a"]⟩ v b = List.replicate n ⟨["a"], 1.0⟩ := by
    rw [Literal.kept, hrows, Literal.filterRows, List.filter_replicate]
    rfl
  have hne (b : Bindings) : Literal.kept ⟨"p", [.const "a"]⟩ v b ≠ [] := by
    rwa [hkept, Ne, List.replicate_eq_nil_iff]
  refine ⟨?_, ?_⟩
  · rw [binaryStrengths, pass_cons_of_ne_nil (hne _)]
    rfl
  · rw [weightedStrengths, pass_cons_of_ne_nil (hne _), hkept, meanWeight, List.map_replicate]
    rfl

theorem weightedStrengths_of_unit_weights (v : View) (b : Bindings) (c : Clause)
    (hweight : ∀ p, ∀ row ∈ v.rows p, row.weight = 1.0)
    (hcount : ∀ p, (v.rows p).length ≤ 2 ^ 53 + 1) :
    weightedStrengths v b c = binaryStrengths v (settled v b c) c ∧
    (∃ k m, k ≤ m ∧ m ≤ c.length ∧
      weightedStrengths v b c = List.replicate k 1.0 ++ List.replicate (c.length - k) 0.0 ∧
      binaryStrengths v b c = List.replicate m 1.0 ++ List.replicate (c.length - m) 0.0) ∧
    ∀ (t : String → String) (picks : List Row), b.Allows t →
      Clause.HoldsOf (c.take (progress v b c)) t v picks →
      weightedStrengths v b c = binaryStrengths v b c := by
  have hscore (rows : List Row) (p : Predicate) (hne : rows ≠ [])
      (hsub : rows.Sublist (v.rows p)) : meanWeight rows = matched rows :=
    meanWeight_of_ones hne (Nat.le_trans hsub.length_le (hcount p))
      fun row hrow => hweight p row (hsub.subset hrow)
  have hsettled : weightedStrengths v b c = binaryStrengths v (settled v b c) c :=
    congrArg Pass.strengths
      (pass_congr_score (fun l _ rows => hscore rows l.predicate) (settled v b c))
  refine ⟨hsettled, ?_, ?_⟩
  · exact ⟨progress v (settled v b c) c, progress v b c, progress_settled_le v b c,
      progress_le v b c, hsettled.trans (binaryStrengths_eq v _ c), binaryStrengths_eq v b c⟩
  · intro t picks hb h
    rw [hsettled, binaryStrengths_eq, binaryStrengths_eq, progress_settled_of_holds hb h]

theorem weightedStrengths_of_joined_rows :
    let v := (Store.compile
      [⟨1.0, "p", ["a", "b"]⟩, ⟨1.0, "p", ["c", "d"]⟩, ⟨1.0, "q", ["a"]⟩]).view
    let c : Clause := [⟨"p", [.var "X", .var "Y"]⟩, ⟨"q", [.var "X"]⟩, ⟨"q", [.var "Y"]⟩]
    (∀ p, ∀ row ∈ v.rows p, row.weight = 1.0) ∧ (∀ p, (v.rows p).length ≤ 2 ^ 53 + 1) ∧
      weightedStrengths v ∅ c = [1.0, 1.0, 0.0] ∧
      weightedStrengths v ∅ c = binaryStrengths v ∅ c := by
  intro v c
  have hweight : ∀ p, ∀ row ∈ v.rows p, row.weight = 1.0 := weight_of_rows_compile (by simp)
  have hcount (p : Predicate) : (v.rows p).length ≤ 2 ^ 53 + 1 :=
    Nat.le_trans (length_rows_compile_le _ p) (by decide)
  have hholds : Clause.HoldsOf (c.take (progress v ∅ c)) (fun x => if x = "X" then "a" else "b") v
      [⟨["a", "b"], 1.0⟩, ⟨["a"], 1.0⟩] := by
    change Clause.HoldsOf [⟨"p", [.var "X", .var "Y"]⟩, ⟨"q", [.var "X"]⟩] _ v _
    refine .cons ⟨?_, by decide⟩ (.cons ⟨?_, by decide⟩ .nil) <;>
      simp [v, Store.rows_compile, Fact.row]
  have hallows : Bindings.Allows ∅ (fun x => if x = "X" then "a" else "b") := by
    intro x values _ hget
    simp [Bindings.get?] at hget
  have h := weightedStrengths_of_unit_weights v ∅ c hweight hcount
  exact ⟨hweight, hcount, h.1.trans rfl, h.2.2 _ _ hallows hholds⟩

theorem weightedStrengths_of_split_rows :
    let v := (Store.compile [⟨1.0, "p", ["a", "b"]⟩, ⟨1.0, "p", ["c", "d"]⟩, ⟨1.0, "q", ["a"]⟩,
      ⟨1.0, "r", ["d"]⟩]).view
    let c : Clause := [⟨"p", [.var "X", .var "Y"]⟩, ⟨"q", [.var "X"]⟩, ⟨"r", [.var "Y"]⟩]
    let v' := (Store.compile (List.replicate (2 ^ 53 + 2) ⟨1.0, "p", ["a"]⟩)).view
    let c' : Clause := [⟨"p", [.const "a"]⟩]
    ((∀ p, ∀ row ∈ v.rows p, row.weight = 1.0) ∧
      binaryStrengths v ∅ c = [1.0, 1.0, 1.0] ∧ weightedStrengths v ∅ c = [0.0, 0.0, 0.0]) ∧
    (∀ p, ∀ row ∈ v'.rows p, row.weight = 1.0) ∧
      binaryStrengths v' ∅ c' = [1.0] ∧ weightedStrengths v' ∅ c' ≠ [1.0] := by
  intro v c v' c'
  obtain ⟨hbinary, hweighted⟩ := strengths_of_copies (n := 2 ^ 53 + 2) (by decide)
  refine ⟨⟨weight_of_rows_compile (by simp), rfl, rfl⟩, ?_, hbinary, ?_⟩
  · exact weight_of_rows_compile fun e he => by rw [List.eq_of_mem_replicate he]
  · intro h
    exact FloatCount.mean_replicate_one_of_eq rfl (List.cons.inj (hweighted.symm.trans h)).1

end RuleInduction
