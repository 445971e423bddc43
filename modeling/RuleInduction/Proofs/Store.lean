import RuleInduction.Store

namespace RuleInduction

namespace Store

theorem relation?_insert (s : Store) (f : Fact) (q : Predicate) :
    (s.insert f).relation? q =
      if f.predicate = q then some (s.rows q ++ [f.row]) else s.relation? q :=
  relation?_append s f.predicate q [f.row]

theorem relation?_extend (s : Store) (facts : List Fact) (q : Predicate) :
    (s.extend facts).relation? q =
      if ∃ f ∈ facts, f.predicate = q then
        some (s.rows q ++ (facts.filter fun f => f.predicate = q).map Fact.row)
      else s.relation? q := by
  induction facts generalizing s with
  | nil => simp [extend]
  | cons f facts ih =>
      have h := ih (s.insert f)
      simp only [extend, List.foldl_cons] at h ⊢
      rw [h, relation?_insert, rows_insert]
      by_cases hf : f.predicate = q
      · by_cases hmore : ∃ f ∈ facts, f.predicate = q
        · simp [hf, hmore]
        · have hnone : (facts.filter fun f => f.predicate = q) = [] := by
            simpa using hmore
          simp [hf, hmore, hnone]
      · simp [hf]

theorem relation?_compile (facts : List Fact) (q : Predicate) :
    (compile facts).relation? q =
      if ∃ f ∈ facts, f.predicate = q then
        some ((facts.filter fun f => f.predicate = q).map Fact.row)
      else none := by
  simp [compile, relation?_extend, Store.rows]

theorem rows_compile (facts : List Fact) (q : Predicate) :
    (compile facts).rows q = (facts.filter fun f => f.predicate = q).map Fact.row := by
  rw [compile, rows_extend, Store.rows, relation?_empty]
  rfl

end Store

namespace View

variable {s : Store} {row : RowRef} {p : Predicate}

@[simp]
theorem relation?_view : s.view.relation? p = s.relation? p := by
  simp [relation?, Store.view, hiddenIndex?]

theorem relation?_viewWithout_of_ne (h : row.predicate ≠ p) :
    (s.viewWithout row).relation? p = s.relation? p := by
  simp [relation?, Store.viewWithout, hiddenIndex?, h]

theorem rows_of_shown {v : View} (h : v.hiddenIndex? p = none) : v.rows p = v.store.rows p := by
  simp only [rows, relation?, h, Store.rows, Option.map_id']

theorem rows_of_hidden {v : View} {i : Nat} (h : v.hiddenIndex? p = some i) :
    v.rows p = (v.store.rows p).eraseIdx i := by
  simp only [rows, relation?, h, Store.rows]
  cases v.store.relation? p with
  | none => rfl
  | some rows => rfl

theorem rows_viewWithout (h : row.predicate = p) :
    (s.viewWithout row).rows p = (s.rows p).eraseIdx row.index :=
  rows_of_hidden (by simp [Store.viewWithout, hiddenIndex?, h])

end View

end RuleInduction
