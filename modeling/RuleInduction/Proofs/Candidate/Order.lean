import RuleInduction.Candidate

namespace RuleInduction

theorem Hints.get_le_of_none {hints : Hints} {q : Predicate} (h : hints[q]? = none)
    (p : Predicate) : hints.get p ≤ hints.get q := by
  have hq : hints.get q = unknown := by
    rw [get, h, Option.getD_none, Nat.min_self]
  exact hq ▸ hints.get_le_unknown p

namespace Literal

variable {hints : Hints} {l m : Literal}

inductive Before (hints : Hints) (l m : Literal) : Prop
  | fewerOpen (h : l.openCount < m.openCount)
  | moreConstants (sameOpen : l.openCount = m.openCount)
      (h : m.constantCount < l.constantCount)
  | smallerHint (sameOpen : l.openCount = m.openCount)
      (sameConstants : l.constantCount = m.constantCount)
      (h : hints.get l.predicate < hints.get m.predicate)
  | smallerLiteral (sameOpen : l.openCount = m.openCount)
      (sameConstants : l.constantCount = m.constantCount)
      (sameHint : hints.get l.predicate = hints.get m.predicate)
      (h : compare l m = .lt)

theorem searchCompare_def (hints : Hints) (l m : Literal) :
    l.searchCompare hints m = (compare l.openCount m.openCount).then
      ((compare m.constantCount l.constantCount).then
        ((compare (hints.get l.predicate) (hints.get m.predicate)).then (compare l m))) :=
  rfl

theorem searchCompare_eq_lt_iff : l.searchCompare hints m = .lt ↔ l.Before hints m := by
  simp only [searchCompare_def, Ordering.then_eq_lt, Nat.compare_eq_lt, Nat.compare_eq_eq]
  constructor
  · rintro (h | ⟨hopen, h | ⟨hconst, h | ⟨hhint, h⟩⟩⟩)
    · exact .fewerOpen h
    · exact .moreConstants hopen h
    · exact .smallerHint hopen hconst.symm h
    · exact .smallerLiteral hopen hconst.symm hhint h
  · intro h
    cases h with
    | fewerOpen h => exact Or.inl h
    | moreConstants hopen h => exact Or.inr ⟨hopen, Or.inl h⟩
    | smallerHint hopen hconst h => exact Or.inr ⟨hopen, Or.inr ⟨hconst.symm, Or.inl h⟩⟩
    | smallerLiteral hopen hconst hhint h =>
        exact Or.inr ⟨hopen, Or.inr ⟨hconst.symm, Or.inr ⟨hhint, h⟩⟩⟩

instance (hints : Hints) : Std.LawfulEqCmp (searchCompare hints) where
  eq_of_compare h := by
    rw [searchCompare_def] at h
    simp only [Ordering.then_eq_eq] at h
    exact Std.LawfulEqOrd.eq_of_compare h.2.2.2

theorem before_of_isLE_of_ne (h : (l.searchCompare hints m).isLE = true) (hne : l ≠ m) :
    l.Before hints m := by
  rcases Ordering.isLE_iff_eq_lt_or_eq_eq.1 h with hlt | heq
  · exact searchCompare_eq_lt_iff.1 hlt
  · exact absurd (Std.LawfulEqCmp.eq_of_compare heq) hne

theorem searchCompare_swap (hints : Hints) (l m : Literal) :
    m.searchCompare hints l = (l.searchCompare hints m).swap :=
  Std.OrientedCmp.eq_swap

theorem isLE_total (hints : Hints) (l m : Literal) :
    (l.searchCompare hints m).isLE = true ∨ (m.searchCompare hints l).isLE = true := by
  rw [searchCompare_swap hints l m]
  cases l.searchCompare hints m with
  | lt => exact Or.inl rfl
  | eq => exact Or.inl rfl
  | gt => exact Or.inr rfl

theorem Before.asymm (h : l.Before hints m) : ¬ m.Before hints l := by
  rw [← searchCompare_eq_lt_iff] at h ⊢
  exact Std.OrientedCmp.not_lt_of_lt h

end Literal

namespace Candidates

variable {hints : Hints} {candidates : Candidates} {l m : Literal}

theorem ordered_perm (hints : Hints) (candidates : Candidates) :
    (candidates.ordered hints).Perm candidates.toList :=
  List.mergeSort_perm _ _

theorem mem_ordered : l ∈ candidates.ordered hints ↔ l ∈ candidates := by
  rw [(ordered_perm hints candidates).mem_iff, Std.ExtTreeSet.mem_toList]

theorem nodup_ordered (hints : Hints) (candidates : Candidates) :
    (candidates.ordered hints).Nodup := by
  refine (ordered_perm hints candidates).nodup_iff.2 ?_
  refine Std.ExtTreeSet.distinct_toList.imp fun hne heq => ?_
  subst heq
  exact hne Std.ReflCmp.compare_self

theorem pairwise_ordered (hints : Hints) (candidates : Candidates) :
    (candidates.ordered hints).Pairwise (Literal.Before hints) := by
  have hsorted : (candidates.ordered hints).Pairwise fun l m =>
      (l.searchCompare hints m).isLE = true :=
    List.pairwise_mergeSort (fun _ _ _ => Std.TransCmp.isLE_trans)
      (fun l m => Bool.or_eq_true _ _ ▸ Literal.isLE_total hints l m) _
  exact hsorted.imp₂ (fun _ _ => Literal.before_of_isLE_of_ne) (nodup_ordered hints candidates)

-- Of two members of a list one stands before the other; if it were the wrong one, each would come
-- before the other.
theorem sublist_ordered_iff :
    [l, m].Sublist (candidates.ordered hints) ↔
      l ∈ candidates ∧ m ∈ candidates ∧ l.Before hints m := by
  have hpairwise := pairwise_ordered hints candidates
  constructor
  · intro h
    have hbefore := List.rel_of_pairwise_cons (hpairwise.sublist h) List.mem_cons_self
    exact ⟨mem_ordered.1 (h.subset List.mem_cons_self),
      mem_ordered.1 (h.subset (List.mem_cons_of_mem l List.mem_cons_self)), hbefore⟩
  · rintro ⟨hl, hm, hbefore⟩
    have hl' : l ∈ candidates.ordered hints := mem_ordered.2 hl
    have hm' : m ∈ candidates.ordered hints := mem_ordered.2 hm
    obtain ⟨before, after, hsplit⟩ := List.append_of_mem hl'
    rw [hsplit] at hm' hpairwise ⊢
    rcases List.mem_append.1 hm' with hm' | hm'
    · exact absurd (List.pairwise_append.1 hpairwise |>.2.2 m hm' l List.mem_cons_self)
        hbefore.asymm
    · rcases List.mem_cons.1 hm' with rfl | hm'
      · exact absurd hbefore hbefore.asymm
      · refine List.sublist_append_of_sublist_right ?_
        exact List.Sublist.cons_cons l (List.singleton_sublist.2 hm')

theorem pairwise_before_ordered (hints : Hints) :
    ((∀ l m : Literal, l.searchCompare hints m = .eq ↔ l = m) ∧
      (∀ l m : Literal, (l.searchCompare hints m).isLE = true →
        (m.searchCompare hints l).isLE = true → l = m) ∧
      (∀ l m n : Literal, (l.searchCompare hints m).isLE = true →
        (m.searchCompare hints n).isLE = true → (l.searchCompare hints n).isLE = true) ∧
      (∀ l m : Literal, (l.searchCompare hints m).isLE = true ∨
        (m.searchCompare hints l).isLE = true) ∧
      ∀ l m : Literal, l.searchCompare hints m = .lt ↔ l.Before hints m) ∧
    (∀ p q : Predicate, hints[q]? = none → hints.get p ≤ hints.get q) ∧
    (∀ candidates : Candidates,
      (∀ l, (candidates.ordered hints).count l = if l ∈ candidates then 1 else 0) ∧
        (candidates.ordered hints).Pairwise (Literal.Before hints)) ∧
    ∀ (candidates candidates' : Candidates) (l m : Literal),
      l ∈ candidates → m ∈ candidates → l ∈ candidates' → m ∈ candidates' →
        ([l, m].Sublist (candidates.ordered hints) ↔ [l, m].Sublist (candidates'.ordered hints)) := by
  refine ⟨⟨fun l m => ?_, fun l m => ?_, fun l m n => Std.TransCmp.isLE_trans,
    Literal.isLE_total hints, fun l m => Literal.searchCompare_eq_lt_iff⟩,
    fun p q hq => Hints.get_le_of_none hq p,
    fun candidates => ⟨fun l => ?_, pairwise_ordered hints candidates⟩, ?_⟩
  · exact Std.LawfulEqCmp.compare_eq_iff_eq
  · intro hlm hml
    exact Std.LawfulEqCmp.eq_of_compare (Std.OrientedCmp.isLE_antisymm hlm hml)
  · simp only [(nodup_ordered hints candidates).count, mem_ordered]
  · intro candidates candidates' l m hl hm hl' hm'
    rw [sublist_ordered_iff, sublist_ordered_iff]
    exact ⟨fun h => ⟨hl', hm', h.2.2⟩, fun h => ⟨hl, hm, h.2.2⟩⟩

theorem pairwise_before_ordered_of_subset :
    let z : Literal := ⟨"z", [.var "A"]⟩
    let a : Literal := ⟨"a", [.var "A"]⟩
    let r : Literal := ⟨"r", [.var "A", .const "c"]⟩
    let hints : Hints := .ofList [("z", 40)]
    let two : Candidates := .ofList [a, z]
    let three : Candidates := .ofList [a, r, z]
    hints.get "z" ≤ hints.get "a" ∧ [z, a].Sublist (two.ordered hints) ∧
      [z, a].Sublist (three.ordered hints) := by
  intro z a r hints two three
  obtain ⟨-, hlast, -, hsame⟩ := pairwise_before_ordered hints
  have htwo : [z, a].Sublist (two.ordered hints) :=
    sublist_ordered_iff.2 ⟨by decide, by decide, .smallerHint rfl rfl (by decide)⟩
  exact ⟨hlast "z" "a" (by decide), htwo,
    (hsame two three z a (by decide) (by decide) (by decide) (by decide)).1 htwo⟩

end Candidates

end RuleInduction
