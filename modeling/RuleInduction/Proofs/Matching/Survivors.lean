import Mathlib.Data.List.Induction
import RuleInduction.Matching

namespace RuleInduction

namespace Constraint

theorem admitsAll_iff {cs : List Constraint} {values : List String} :
    admitsAll cs values = true ↔
      ∀ (i : Nat) (c : Constraint), cs[i]? = some c → c.admits values[i]? = true := by
  induction cs generalizing values with
  | nil => simp [admitsAll]
  | cons c cs ih =>
      simp only [admitsAll, Bool.and_eq_true, ih, List.head?_eq_getElem?, List.getElem?_tail]
      constructor
      · rintro ⟨hc, hcs⟩ i d hd
        cases i with
        | zero => exact Option.some.inj hd ▸ hc
        | succ i => exact hcs i d hd
      · intro h
        exact ⟨h 0 c rfl, fun i d hd => h (i + 1) d hd⟩

end Constraint

namespace Literal

theorem admits_iff {l : Literal} {b : Bindings} {row : Row} :
    l.admits b row = true ↔ ∀ (i : Nat) (a : Term), l.arguments[i]? = some a →
      (a.constraint b).admits row.values[i]? = true := by
  simp only [Literal.admits, Constraint.admitsAll_iff, List.getElem?_map, Option.map_eq_some_iff]
  constructor
  · intro h i a ha
    exact h i _ ⟨a, ha, rfl⟩
  · rintro h i _ ⟨a, ha, rfl⟩
    exact h i a ha

theorem mem_filterRows {l : Literal} {b : Bindings} {rows : List Row} {row : Row} :
    row ∈ l.filterRows b rows ↔ row ∈ rows ∧ l.admits b row = true :=
  List.mem_filter

theorem mem_column {rows : List Row} {place : Nat} {value : String} :
    value ∈ column rows place ↔ ∃ row ∈ rows, row.values[place]? = some value := by
  simp [column, Std.ExtTreeSet.mem_ofList]

theorem vars_append_singleton (p : Predicate) (args : List Term) (a : Term) :
    vars ⟨p, args ++ [a]⟩ = vars ⟨p, args⟩ ++ a.named?.toList := by
  cases h : a.named? <;> simp [vars, h]

theorem get?_rebind_append_singleton (p : Predicate) (args : List Term) (a : Term)
    (rows : List Row) (b : Bindings) (x : String) :
    (rebind ⟨p, args ++ [a]⟩ rows b).get? x =
      if a.named? = some x then some (column rows args.length)
      else (rebind ⟨p, args⟩ rows b).get? x := by
  simp only [rebind, List.zipIdx_append, List.foldl_append, Nat.zero_add, List.zipIdx_singleton,
    List.foldl_cons, List.foldl_nil]
  cases a.named? with
  | none => simp
  | some y => simp [Bindings.get?_bind]

theorem get?_rebind (l : Literal) (rows : List Row) (b : Bindings) (x : String) :
    (x ∈ l.vars ∧ ∃ i, l.arguments[i]? = some (.var x) ∧
      (∀ j, l.arguments[j]? = some (.var x) → j ≤ i) ∧
      (l.rebind rows b).get? x = some (column rows i)) ∨
    (x ∉ l.vars ∧ (l.rebind rows b).get? x = b.get? x) := by
  obtain ⟨p, args⟩ := l
  induction args using List.reverseRecOn with
  | nil => exact Or.inr ⟨by simp [vars], rfl⟩
  | append_singleton args a ih =>
      simp only [vars_append_singleton, get?_rebind_append_singleton, List.mem_append,
        Option.mem_toList]
      by_cases ha : a.named? = some x
      · refine Or.inl ⟨Or.inr ha, args.length, ?_, ?_, if_pos ha⟩
        · rw [List.getElem?_concat_length, (Term.named?_eq_some.1 ha).1]
        · intro j hj
          have := (List.getElem?_eq_some_iff.1 hj).1
          simp only [List.length_append, List.length_singleton] at this
          omega
      · rw [if_neg ha]
        rcases ih with ⟨hx, i, hi, hlast, hget⟩ | ⟨hx, hget⟩
        · refine Or.inl ⟨Or.inl hx, i, ?_, ?_, hget⟩
          · exact List.getElem?_append_left (List.getElem?_eq_some_iff.1 hi).1 ▸ hi
          · intro j hj
            rw [List.getElem?_append] at hj
            split at hj
            · exact hlast j hj
            · have ha' : a = .var x := by
                rw [List.getElem?_singleton] at hj
                split at hj
                · exact Option.some.inj hj
                · cases hj
              exact absurd (Term.named?_eq_some.2 ⟨ha', (mem_vars.1 hx).2⟩) ha
        · exact Or.inr ⟨fun h => h.elim hx ha, hget⟩

def kept (l : Literal) (v : View) (b : Bindings) : List Row :=
  l.filterRows b (v.rows l.predicate)

theorem mem_kept {l : Literal} {v : View} {b : Bindings} {row : Row} :
    row ∈ l.kept v b ↔ row ∈ v.rows l.predicate ∧ l.admits b row = true :=
  mem_filterRows

theorem kept_sublist (l : Literal) (v : View) (b : Bindings) :
    (l.kept v b).Sublist (v.rows l.predicate) :=
  List.filter_sublist

end Literal

theorem pass_cons_of_nil {score : List Row → Float} {v : View} {l : Literal} {c : Clause}
    {b : Bindings} (h : l.kept v b = []) :
    pass score v (l :: c) b = ⟨List.replicate (c.length + 1) 0.0, b⟩ := by
  simp only [Literal.kept] at h
  simp only [pass, h]

theorem pass_cons_of_ne_nil {score : List Row → Float} {v : View} {l : Literal} {c : Clause}
    {b : Bindings} (h : l.kept v b ≠ []) :
    pass score v (l :: c) b =
      ⟨score (l.kept v b) :: (pass score v c (l.rebind (l.kept v b) b)).strengths,
        (pass score v c (l.rebind (l.kept v b) b)).bindings⟩ := by
  obtain ⟨row, rows, hrows⟩ := List.exists_cons_of_ne_nil h
  rw [hrows]
  simp only [Literal.kept] at hrows
  simp only [pass, hrows]

def survivors (v : View) : Clause → Bindings → List (List Row)
  | [], _ => []
  | l :: c, b =>
    if l.kept v b = [] then [] else l.kept v b :: survivors v c (l.rebind (l.kept v b) b)

theorem survivors_cons_of_nil {v : View} {l : Literal} {c : Clause} {b : Bindings}
    (h : l.kept v b = []) : survivors v (l :: c) b = [] :=
  if_pos h

theorem survivors_cons_of_ne_nil {v : View} {l : Literal} {c : Clause} {b : Bindings}
    (h : l.kept v b ≠ []) :
    survivors v (l :: c) b = l.kept v b :: survivors v c (l.rebind (l.kept v b) b) :=
  if_neg h

theorem length_survivors_le (v : View) (c : Clause) (b : Bindings) :
    (survivors v c b).length ≤ c.length := by
  induction c generalizing b with
  | nil => exact Nat.le_refl 0
  | cons l c ih =>
      by_cases h : l.kept v b = []
      · rw [survivors_cons_of_nil h]
        exact Nat.zero_le _
      · rw [survivors_cons_of_ne_nil h]
        exact Nat.succ_le_succ (ih _)

theorem strengths_pass (score : List Row → Float) (v : View) (c : Clause) (b : Bindings) :
    (pass score v c b).strengths = (survivors v c b).map score ++
      List.replicate (c.length - (survivors v c b).length) 0.0 := by
  induction c generalizing b with
  | nil => rfl
  | cons l c ih =>
      by_cases h : l.kept v b = []
      · rw [pass_cons_of_nil h, survivors_cons_of_nil h]
        rfl
      · rw [pass_cons_of_ne_nil h, survivors_cons_of_ne_nil h, ih]
        simp

theorem sublist_of_survivors {v : View} {body : Clause} {b : Bindings} {k : Nat} {l : Literal}
    {rows : List Row} (hl : body[k]? = some l) (h : (survivors v body b)[k]? = some rows) :
    rows.Sublist (v.rows l.predicate) := by
  induction body generalizing b k with
  | nil => cases hl
  | cons m body ih =>
      by_cases hk : m.kept v b = []
      · rw [survivors_cons_of_nil hk] at h
        cases h
      · rw [survivors_cons_of_ne_nil hk] at h
        cases k with
        | zero =>
            cases hl
            cases h
            exact Literal.kept_sublist _ v b
        | succ k => exact ih hl h

end RuleInduction
