import RuleInduction.ClauseSearch
import RuleInduction.Proofs.Store

namespace RuleInduction.Store

variable {s t u : Store} {p q : Predicate}

theorem empty_merge (s : Store) : empty.merge s = s := by
  ext1 p
  rw [relation?_merge, rows, relation?_empty, Option.getD_none]
  cases s.relation? p with
  | none => rfl
  | some rows => rfl

theorem merge_empty (s : Store) : s.merge empty = s := by
  ext1 p
  rw [relation?_merge, relation?_empty]

theorem merge_assoc (s t u : Store) : (s.merge t).merge u = s.merge (t.merge u) := by
  ext1 p
  rw [relation?_merge, relation?_merge, relation?_merge, relation?_merge, rows_merge]
  cases u.relation? p with
  | none => rfl
  | some rows => exact congrArg some (List.append_assoc _ _ _)

theorem append_append_of_ne (h : p ≠ q) (s : Store) (rows rows' : List Row) :
    (s.append p rows).append q rows' = (s.append q rows').append p rows := by
  ext1 r
  simp only [relation?_append, rows_append]
  by_cases hp : p = r <;> by_cases hq : q = r
  · exact absurd (hp.trans hq.symm) h
  · simp [hp, hq]
  · simp [hp, hq]
  · simp [hp, hq]

theorem foldl_append_of_perm {relations : List (Predicate × Relation)}
    (h : relations.Perm t.relations.toList) (s : Store) :
    relations.foldl (fun u r => u.append r.1 r.2) s = s.merge t := by
  refine h.foldl_eq' (fun r hr r' hr' u => ?_) s
  have hmem {e : Predicate × Relation} (he : e ∈ relations) : t.relation? e.1 = some e.2 :=
    Std.ExtTreeMap.mem_toList_iff_getElem?_eq_some.1 (h.mem_iff.1 he)
  by_cases heq : r.1 = r'.1
  · have hrows : r.2 = r'.2 := by
      have hr := hmem hr
      rw [heq, hmem hr'] at hr
      exact (Option.some.inj hr).symm
    rw [heq, hrows]
  · exact append_append_of_ne heq u r.2 r'.2

theorem extend_eq_merge (s : Store) (facts : List Fact) :
    s.extend facts = s.merge (compile facts) := by
  ext1 p
  rw [relation?_extend, relation?_merge, relation?_compile]
  by_cases h : ∃ f ∈ facts, f.predicate = p
  · rw [if_pos h, if_pos h]
  · rw [if_neg h, if_neg h]

theorem compile_append (xs ys : List Fact) : compile (xs ++ ys) = (compile xs).extend ys :=
  extend_append empty xs ys

theorem getElem?_filter_countP {α : Type} {keep : α → Bool} {xs : List α} {i : Nat} {x : α}
    (hi : xs[i]? = some x) (hx : keep x = true) :
    (xs.filter keep)[(xs.take i).countP keep]? = some x := by
  obtain ⟨hlt, rfl⟩ := List.getElem?_eq_some_iff.1 hi
  have hsplit : xs = xs.take i ++ xs[i] :: xs.drop (i + 1) := by
    rw [List.getElem_cons_drop, List.take_append_drop]
  have hfilter : xs.filter keep =
      (xs.take i).filter keep ++ xs[i] :: (xs.drop (i + 1)).filter keep := by
    conv => lhs; rw [hsplit]
    rw [List.filter_append, List.filter_cons_of_pos hx]
  rw [hfilter, List.countP_eq_length_filter, List.getElem?_append_right (Nat.le_refl _), Nat.sub_self]
  rfl

theorem getElem?_rows_compile {facts : List Fact} {i : Nat} {f : Fact} (hi : facts[i]? = some f) :
    ((compile facts).rows f.predicate)[(facts.take i).countP fun g => g.predicate = f.predicate]? =
      some f.row := by
  rw [rows_compile, List.getElem?_map, getElem?_filter_countP hi (decide_eq_true rfl)]
  rfl

theorem getElem?_hints (s : Store) (p : Predicate) :
    s.hints[p]? = (s.relation? p).map List.length :=
  Std.ExtTreeMap.getElem?_map

theorem getElem?_hints_merge (s t : Store) (p : Predicate) :
    (s.merge t).hints[p]? = Option.merge (· + ·) s.hints[p]? t.hints[p]? := by
  simp only [getElem?_hints, relation?_merge, Store.rows]
  cases s.relation? p with
  | none => cases t.relation? p <;> simp
  | some rows => cases t.relation? p <;> simp

theorem compile_append_eq_merge (xs ys : List Fact) (s t u : Store) :
    (compile (xs ++ ys) = (compile xs).merge (compile ys) ∧
      compile (xs ++ ys) = (compile xs).extend ys) ∧
    (∀ p, (compile xs).relation? p =
      if ∃ f ∈ xs, f.predicate = p then
        some ((xs.filter fun f => f.predicate = p).map fun f => ⟨f.arguments, f.weight⟩)
      else none) ∧
    (∀ i f, xs[i]? = some f →
      ((compile xs).rows f.predicate)[(xs.take i).countP fun g => g.predicate = f.predicate]? =
        some ⟨f.arguments, f.weight⟩) ∧
    ((s.merge t).merge u = s.merge (t.merge u) ∧ empty.merge s = s ∧ s.merge empty = s) ∧
    (∀ relations : List (Predicate × Relation), relations.Perm t.relations.toList →
      relations.foldl (fun u r => u.append r.1 r.2) s = s.merge t) ∧
    ∀ p, s.hints[p]? = (s.relation? p).map List.length ∧
      (s.merge t).hints[p]? = Option.merge (· + ·) s.hints[p]? t.hints[p]? := by
  refine ⟨⟨?_, compile_append xs ys⟩, relation?_compile xs, fun i f hi => ?_,
    ⟨merge_assoc s t u, empty_merge s, merge_empty s⟩, fun relations h => ?_, fun p => ?_⟩
  · rw [compile_append, extend_eq_merge]
  · exact getElem?_rows_compile hi
  · exact foldl_append_of_perm h s
  · exact ⟨getElem?_hints s p, getElem?_hints_merge s t p⟩

theorem compile_append_eq_merge_of_twins :
    let xs : List Fact := [⟨1.0, "likes", ["tom", "ann"]⟩, ⟨1.0, "owns", ["tom", "cat"]⟩,
      ⟨0.5, "likes", ["tom", "ann"]⟩]
    let ys : List Fact := [⟨2.0, "sings", ["ann"]⟩, ⟨1.0, "owns", ["ann", "dog"]⟩]
    ((compile xs).rows "likes")[1]? = some ⟨["tom", "ann"], 0.5⟩ ∧
      (compile ys).relations.toList.reverse.foldl (fun u r => u.append r.1 r.2) (compile xs) =
        compile (xs ++ ys) := by
  intro xs ys
  obtain ⟨⟨hmerge, -⟩, -, hplace, -, horder, -⟩ :=
    compile_append_eq_merge xs ys (compile xs) (compile ys) empty
  exact ⟨hplace 2 ⟨0.5, "likes", ["tom", "ann"]⟩ rfl,
    (horder _ (List.reverse_perm _)).trans hmerge.symm⟩

end RuleInduction.Store
