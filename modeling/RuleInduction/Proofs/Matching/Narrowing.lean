import RuleInduction.Proofs.Matching.Progress

namespace RuleInduction

namespace Bindings

/-- Each variable that the second bindings restrict has values in the first, and no others than
these. -/
def Within (b b' : Bindings) : Prop :=
  ∀ (x : String) (values' : Values), b'.get? x = some values' →
    ∃ values, b.get? x = some values ∧ ∀ w ∈ values, w ∈ values'

variable {b b' d : Bindings}

theorem Within.refl (b : Bindings) : b.Within b :=
  fun _ values h => ⟨values, h, fun _ hw => hw⟩

theorem Within.trans (h : b.Within b') (h' : b'.Within d) : b.Within d := by
  intro x values hd
  obtain ⟨values', hb', hsub'⟩ := h' x values hd
  obtain ⟨values'', hb, hsub⟩ := h x values' hb'
  exact ⟨values'', hb, fun w hw => hsub' w (hsub w hw)⟩

end Bindings

def tuples (rows : List Row) : List (List String) :=
  rows.map Row.values

theorem mem_tuples {rows : List Row} {args : List String} :
    args ∈ tuples rows ↔ ∃ row ∈ rows, row.values = args :=
  List.mem_map

theorem tuples_append (rows rows' : List Row) :
    tuples (rows ++ rows') = tuples rows ++ tuples rows' :=
  List.map_append

theorem tuples_map_row (facts : List Fact) :
    tuples (facts.map Fact.row) = facts.map Fact.arguments :=
  List.map_map

variable {v v' : View} {b b' : Bindings} {l : Literal} {c : Clause} {rows rows' : List Row}

theorem Term.admits_of_within (hb : b.Within b') {a : Term} {value? : Option String}
    (h : (a.constraint b).admits value? = true) : (a.constraint b').admits value? = true := by
  cases a with
  | const w => exact h
  | var x =>
      by_cases hx : x = anonymousName
      · simp [constraint, hx, Constraint.admits]
      · cases hget' : b'.get? x with
        | none => simp [constraint, hx, hget', Constraint.admits]
        | some values' =>
            obtain ⟨values, hget, hsub⟩ := hb x values' hget'
            cases value? with
            | none => simp [constraint, hx, hget, Constraint.admits] at h
            | some w =>
                simp only [constraint, hx, if_false, hget, hget', Constraint.admits,
                  Option.any_some, ← Std.ExtTreeSet.mem_iff_contains] at h ⊢
                exact hsub w h

namespace Literal

theorem admits_of_within (hb : b.Within b') {row row' : Row} (hrow : row'.values = row.values)
    (h : l.admits b row = true) : l.admits b' row' = true := by
  rw [admits_iff] at h ⊢
  intro i a ha
  rw [hrow]
  exact Term.admits_of_within hb (h i a ha)

theorem tuples_kept_subset (hv : tuples (v.rows l.predicate) ⊆ tuples (v'.rows l.predicate))
    (hb : b.Within b') : tuples (l.kept v b) ⊆ tuples (l.kept v' b') := by
  intro args hargs
  obtain ⟨row, hrow, rfl⟩ := mem_tuples.1 hargs
  obtain ⟨hmem, hadmits⟩ := mem_kept.1 hrow
  obtain ⟨row', hmem', heq⟩ := mem_tuples.1 (hv (mem_tuples.2 ⟨row, hmem, rfl⟩))
  exact mem_tuples.2 ⟨row', mem_kept.2 ⟨hmem', admits_of_within hb heq hadmits⟩, heq⟩

theorem column_subset (h : tuples rows ⊆ tuples rows') {place : Nat} {w : String}
    (hw : w ∈ column rows place) : w ∈ column rows' place := by
  obtain ⟨row, hrow, hvalue⟩ := mem_column.1 hw
  obtain ⟨row', hrow', heq⟩ := mem_tuples.1 (h (mem_tuples.2 ⟨row, hrow, rfl⟩))
  exact mem_column.2 ⟨row', hrow', heq ▸ hvalue⟩

theorem within_rebind (l : Literal) (hb : b.Within b') (h : tuples rows ⊆ tuples rows') :
    (l.rebind rows b).Within (l.rebind rows' b') := by
  intro x values' hget'
  rcases l.get?_rebind rows b x with ⟨hx, i, hi, hlast, hget⟩ | ⟨hx, hget⟩
  · rcases l.get?_rebind rows' b' x with ⟨_, j, hj, hlast', hcol⟩ | ⟨hx', _⟩
    · obtain rfl : i = j := Nat.le_antisymm (hlast' i hi) (hlast j hj)
      rw [hcol] at hget'
      cases hget'
      exact ⟨_, hget, fun _ => column_subset h⟩
    · exact absurd hx hx'
  · rcases l.get?_rebind rows' b' x with ⟨hx', _⟩ | ⟨_, hold⟩
    · exact absurd hx' hx
    · rw [hget]
      exact hb x values' (hold ▸ hget')

theorem rebind_within (l : Literal) (h : ∀ row ∈ rows, l.admits b row = true) :
    (l.rebind rows b).Within b := by
  intro x values' hget'
  rcases l.get?_rebind rows b x with ⟨hx, i, hi, _, hget⟩ | ⟨_, hget⟩
  · refine ⟨_, hget, fun w hw => ?_⟩
    obtain ⟨row, hrow, hvalue⟩ := mem_column.1 hw
    have hadmits := admits_iff.1 (h row hrow) i (.var x) hi
    simpa [Term.constraint, (mem_vars.1 hx).2, hget', Constraint.admits, hvalue] using hadmits
  · exact ⟨values', hget.trans hget', fun _ hw => hw⟩

theorem rebind_kept_within (l : Literal) (v : View) (b : Bindings) :
    (l.rebind (l.kept v b) b).Within b :=
  l.rebind_within fun _ hrow => (mem_kept.1 hrow).2

end Literal

theorem bindings_pass_within (score : List Row → Float) (v : View) (c : Clause) (b : Bindings) :
    (pass score v c b).bindings.Within b := by
  induction c generalizing b with
  | nil => exact .refl b
  | cons l c ih =>
      by_cases h : l.kept v b = []
      · rw [pass_cons_of_nil h]
        exact .refl b
      · rw [pass_cons_of_ne_nil h]
        exact (ih _).trans (l.rebind_kept_within v b)

theorem settled_within (v : View) (b : Bindings) (c : Clause) : (settled v b c).Within b :=
  bindings_pass_within matched v c b

-- Bindings that start within others stay so, literal by literal, because the rows kept for them are
-- among the rows kept for the others.
theorem progress_mono
    (hv : ∀ l ∈ c, tuples (v.rows l.predicate) ⊆ tuples (v'.rows l.predicate))
    (hb : b.Within b') : progress v b c ≤ progress v' b' c := by
  induction c generalizing b b' with
  | nil => exact Nat.le_refl 0
  | cons l c ih =>
      have hkept := Literal.tuples_kept_subset (hv l List.mem_cons_self) hb
      by_cases h : l.kept v b = []
      · rw [progress_cons_of_nil h]
        exact Nat.zero_le _
      · have h' : l.kept v' b' ≠ [] := by
          intro hnil
          rw [hnil] at hkept
          exact h (List.map_eq_nil_iff.1 (List.subset_nil.1 hkept))
        rw [progress_cons_of_ne_nil h, progress_cons_of_ne_nil h']
        exact Nat.succ_le_succ (ih (fun m hm => hv m (List.mem_cons_of_mem l hm))
          (l.within_rebind hb hkept))

theorem binaryStrengths_congr
    (hv : ∀ l ∈ c, tuples (v.rows l.predicate) ⊆ tuples (v'.rows l.predicate))
    (hv' : ∀ l ∈ c, tuples (v'.rows l.predicate) ⊆ tuples (v.rows l.predicate))
    (hb : b.Within b') (hb' : b'.Within b) :
    binaryStrengths v b c = binaryStrengths v' b' c := by
  rw [binaryStrengths_eq, binaryStrengths_eq,
    Nat.le_antisymm (progress_mono hv hb) (progress_mono hv' hb')]

end RuleInduction
