import RuleInduction.Proofs.FloatOrder
import RuleInduction.Selection

namespace RuleInduction.Strategy

theorem lowestFrom_eq_some {i j : Nat} {lowest : Option (Nat × Float)} {xs : List Float} {y : Float}
    (h : lowestFrom i lowest xs = some (j, y)) :
    lowest = some (j, y) ∨ ∃ k, j = i + k ∧ xs[k]? = some y ∧ y.isNaN = false := by
  induction xs generalizing i lowest with
  | nil => exact Or.inl h
  | cons x xs ih =>
      have later (lowest' : Option (Nat × Float))
          (h' : lowestFrom (i + 1) lowest' xs = some (j, y)) :
          lowest' = some (j, y) ∨ ∃ k, j = i + k ∧ (x :: xs)[k]? = some y ∧ y.isNaN = false := by
        rcases ih h' with h' | ⟨k, hj, hk, hy⟩
        · exact Or.inl h'
        · exact Or.inr ⟨k + 1, by omega, hk, hy⟩
      have first (hx : ¬ x.isNaN = true) (h' : some (i, x) = some (j, y)) :
          ∃ k, j = i + k ∧ (x :: xs)[k]? = some y ∧ y.isNaN = false := by
        cases h'
        exact ⟨0, rfl, rfl, Bool.eq_false_iff.2 hx⟩
      simp only [lowestFrom] at h
      split at h
      · exact later _ h
      · next hx =>
          split at h
          · split at h
            · exact later _ h
            · exact Or.inr ((later _ h).elim (first hx) id)
          · exact Or.inr ((later _ h).elim (first hx) id)

-- The lowest number so far never rises, so the last one is not above any number on the way.
theorem le_of_lowestFrom {i j : Nat} {lowest : Option (Nat × Float)} {xs : List Float} {y : Float}
    (h : lowestFrom i lowest xs = some (j, y))
    (hlowest : ∀ k z, lowest = some (k, z) → z.isNaN = false) :
    (∀ k z, lowest = some (k, z) → y ≤ z) ∧ ∀ x ∈ xs, x.isNaN = false → y ≤ x := by
  induction xs generalizing i lowest with
  | nil =>
      refine ⟨fun k z hz => ?_, fun x hx => absurd hx List.not_mem_nil⟩
      cases hz.symm.trans h
      exact FloatOrder.le_refl (hlowest j y h)
  | cons x xs ih =>
      simp only [List.forall_mem_cons]
      by_cases hx : x.isNaN = true
      · simp only [lowestFrom, if_pos hx] at h
        obtain ⟨hold, hrest⟩ := ih h hlowest
        exact ⟨hold, fun hnum => absurd hx (Bool.eq_false_iff.1 hnum), hrest⟩
      · have hnum := Bool.eq_false_iff.2 hx
        have hfirst : ∀ k z, some (i, x) = some (k, z) → z.isNaN = false := by
          rintro _ _ ⟨⟩
          exact hnum
        simp only [lowestFrom, if_neg hx] at h
        cases lowest with
        | none =>
            obtain ⟨hold, hrest⟩ := ih h hfirst
            refine ⟨?_, fun _ => hold i x rfl, hrest⟩
            rintro _ _ ⟨⟩
        | some e =>
            obtain ⟨k, z⟩ := e
            by_cases hge : x ≥ z
            · simp only [if_pos hge] at h
              obtain ⟨hold, hrest⟩ := ih h hlowest
              exact ⟨hold, fun _ => FloatOrder.le_trans (hold k z rfl) hge, hrest⟩
            · simp only [if_neg hge] at h
              obtain ⟨hold, hrest⟩ := ih h hfirst
              refine ⟨?_, fun _ => hold i x rfl, hrest⟩
              rintro _ _ ⟨⟩
              have hlt := FloatOrder.lt_of_not_ge hnum (hlowest k z rfl) hge
              exact FloatOrder.le_trans (hold i x rfl) (FloatOrder.le_of_lt hlt)

theorem isNaN_of_lowestFrom_eq_none {i : Nat} {lowest : Option (Nat × Float)} {xs : List Float}
    (h : lowestFrom i lowest xs = none) : lowest = none ∧ ∀ x ∈ xs, x.isNaN = true := by
  induction xs generalizing i lowest with
  | nil => exact ⟨h, fun x hx => absurd hx List.not_mem_nil⟩
  | cons x xs ih =>
      simp only [lowestFrom] at h
      split at h
      · next hx =>
          obtain ⟨hnone, hrest⟩ := ih h
          exact ⟨hnone, List.forall_mem_cons.2 ⟨hx, hrest⟩⟩
      · split at h
        · split at h <;> cases (ih h).1
        · cases (ih h).1

theorem le_of_lowest {xs : List Float} {i : Nat} {y : Float} (h : lowest xs = some i)
    (hi : xs[i]? = some y) : ∀ x ∈ xs, x.isNaN = false → y ≤ x := by
  obtain ⟨⟨j, z⟩, hj, rfl⟩ := Option.map_eq_some_iff.1 h
  rcases lowestFrom_eq_some hj with hnone | ⟨k, rfl, hk, _⟩
  · cases hnone
  · rw [Nat.zero_add] at hi
    cases hi.symm.trans hk
    exact (le_of_lowestFrom hj (by rintro _ _ ⟨⟩)).2

theorem isNaN_of_lowest_eq_none {xs : List Float} (h : lowest xs = none) :
    ∀ x ∈ xs, x.isNaN = true :=
  (isNaN_of_lowestFrom_eq_none (Option.map_eq_none_iff.1 h)).2

theorem isNaN_of_lowest {xs : List Float} {i : Nat} (h : lowest xs = some i) :
    ∃ x, xs[i]? = some x ∧ x.isNaN = false := by
  obtain ⟨⟨j, x⟩, hj, rfl⟩ := Option.map_eq_some_iff.1 h
  rcases lowestFrom_eq_some hj with hj | ⟨k, rfl, hk, hx⟩
  · cases hj
  · exact ⟨x, by simpa using hk, hx⟩

-- Below every number that stands before place `k`.
def Undercuts (xs : List Float) (k : Nat) (y : Float) : Prop :=
  ∀ (m : Nat) (z : Float), m < k → xs[m]? = some z → z.isNaN = false → y < z

theorem undercuts_zero (xs : List Float) (y : Float) : Undercuts xs 0 y :=
  fun m _ hm => absurd hm (Nat.not_lt_zero m)

theorem Undercuts.cons {xs : List Float} {k : Nat} {x y : Float} (h : Undercuts xs k y)
    (hx : x.isNaN = false → y < x) : Undercuts (x :: xs) (k + 1) y := by
  intro m z hm hz hnum
  cases m with
  | zero =>
      cases hz
      exact hx hnum
  | succ m => exact h m z (Nat.lt_of_succ_lt_succ hm) hz hnum

-- What the scan ends with was there before it, or stands behind numbers that are all above it.
theorem undercuts_of_lowestFrom {i j : Nat} {lowest : Option (Nat × Float)} {xs : List Float}
    {y : Float} (h : lowestFrom i lowest xs = some (j, y))
    (hlowest : ∀ k z, lowest = some (k, z) → z.isNaN = false) :
    lowest = some (j, y) ∨
      (∀ k z, lowest = some (k, z) → y < z) ∧ ∃ k, j = i + k ∧ Undercuts xs k y := by
  induction xs generalizing i lowest with
  | nil => exact Or.inl h
  | cons x xs ih =>
      by_cases hx : x.isNaN = true
      · simp only [lowestFrom, if_pos hx] at h
        rcases ih h hlowest with hold | ⟨hold, k, rfl, hk⟩
        · exact Or.inl hold
        · exact Or.inr ⟨hold, k + 1, by omega, hk.cons fun hnum => nomatch hx.symm.trans hnum⟩
      · have hnum := Bool.eq_false_iff.2 hx
        -- Once `x` is the lowest, either it stays so or what takes its place is below it.
        have taken (h : lowestFrom (i + 1) (some (i, x)) xs = some (j, y)) :
            y ≤ x ∧ ∃ k, j = i + k ∧ Undercuts (x :: xs) k y := by
          have hfirst : ∀ k z, some (i, x) = some (k, z) → z.isNaN = false := by
            rintro _ _ ⟨⟩
            exact hnum
          rcases ih h hfirst with hold | ⟨hold, k, rfl, hk⟩
          · cases hold
            exact ⟨FloatOrder.le_refl hnum, 0, rfl, undercuts_zero _ _⟩
          · have hlt := hold i x rfl
            exact ⟨FloatOrder.le_of_lt hlt, k + 1, by omega, hk.cons fun _ => hlt⟩
        simp only [lowestFrom, if_neg hx] at h
        cases lowest with
        | none =>
            refine Or.inr ⟨?_, (taken h).2⟩
            rintro _ _ ⟨⟩
        | some e =>
            obtain ⟨l, w⟩ := e
            by_cases hge : x ≥ w
            · simp only [if_pos hge] at h
              rcases ih h hlowest with hold | ⟨hold, k, rfl, hk⟩
              · exact Or.inl hold
              · have hlt := FloatOrder.lt_of_lt_of_le (hold l w rfl) hge
                exact Or.inr ⟨hold, k + 1, by omega, hk.cons fun _ => hlt⟩
            · simp only [if_neg hge] at h
              obtain ⟨hle, hk⟩ := taken h
              refine Or.inr ⟨?_, hk⟩
              rintro _ _ ⟨⟩
              exact FloatOrder.lt_of_le_of_lt hle
                (FloatOrder.lt_of_not_ge hnum (hlowest l w rfl) hge)

structure FirstLowest (xs : List Float) (i : Nat) (x : Float) : Prop where
  get : xs[i]? = some x
  number : x.isNaN = false
  least : ∀ y ∈ xs, y.isNaN = false → x ≤ y
  first : Undercuts xs i x

theorem FirstLowest.unique {xs : List Float} {i j : Nat} {x y : Float} (hi : FirstLowest xs i x)
    (hj : FirstLowest xs j y) : i = j := by
  have hxy := hi.least y (List.mem_of_getElem? hj.get) hj.number
  have hyx := hj.least x (List.mem_of_getElem? hi.get) hi.number
  rcases Nat.lt_trichotomy i j with hlt | heq | hgt
  · exact absurd (hj.first i x hlt hi.get hi.number) (FloatOrder.not_lt_of_ge hxy)
  · exact heq
  · exact absurd (hi.first j y hgt hj.get hj.number) (FloatOrder.not_lt_of_ge hyx)

theorem firstLowest_of_lowest {xs : List Float} {i : Nat} (h : lowest xs = some i) :
    ∃ x, FirstLowest xs i x := by
  obtain ⟨x, hget, hnumber⟩ := isNaN_of_lowest h
  refine ⟨x, hget, hnumber, le_of_lowest h hget, ?_⟩
  obtain ⟨⟨j, y⟩, hj, rfl⟩ := Option.map_eq_some_iff.1 h
  rcases lowestFrom_eq_some hj with hnone | ⟨k, rfl, hk, -⟩
  · cases hnone
  · rcases undercuts_of_lowestFrom hj (by rintro _ _ ⟨⟩) with hnone | ⟨-, k', heq, hfirst⟩
    · cases hnone
    · obtain rfl := Nat.add_left_cancel heq
      rw [Nat.zero_add] at hget ⊢
      cases hget.symm.trans hk
      exact hfirst

theorem isFinite_of_mem_finite {xs : List Float} {e : Float × Nat} (h : e ∈ finite xs) :
    xs[e.2]? = some e.1 ∧ e.1.isFinite = true := by
  obtain ⟨he, hf⟩ := List.mem_filter.1 h
  exact ⟨List.mem_zipIdx_iff_getElem?.1 he, hf⟩

variable {G : Type} [RandomSource G]

theorem isNaN_of_spin {xs : List Float} {g : G} {i : Nat} (h : (spin xs g).1 = .chosen i) :
    ∃ x, xs[i]? = some x ∧ x.isNaN = false := by
  simp only [spin] at h
  split at h
  · cases h
  · split at h
    · split at h
      · next e he =>
          cases h
          obtain ⟨hget, hfin⟩ := isFinite_of_mem_finite (List.mem_of_getElem? he)
          exact ⟨e.1, hget, FloatOrder.isNaN_of_isFinite hfin⟩
      · cases h
    · cases h

theorem isNaN_of_chosen {strategy : Strategy} {xs : List Float} {g : G} {i : Nat}
    (h : (strategy.select xs g).1 = .chosen i) : ∃ x, xs[i]? = some x ∧ x.isNaN = false := by
  cases strategy with
  | best =>
      simp only [select] at h
      split at h
      · next hi =>
          cases h
          exact isNaN_of_lowest hi
      · cases h
  | roulette => exact isNaN_of_spin h

theorem lowest_eq_none_iff {xs : List Float} : lowest xs = none ↔ ∀ x ∈ xs, x.isNaN = true := by
  refine ⟨isNaN_of_lowest_eq_none, fun hnan => ?_⟩
  cases h : lowest xs with
  | none => rfl
  | some i =>
      obtain ⟨x, hx⟩ := firstLowest_of_lowest h
      cases (hnan x (List.mem_of_getElem? hx.get)).symm.trans hx.number

theorem lowest_eq_some_iff {xs : List Float} {i : Nat} :
    lowest xs = some i ↔ ∃ x, FirstLowest xs i x := by
  refine ⟨firstLowest_of_lowest, fun ⟨x, hx⟩ => ?_⟩
  cases h : lowest xs with
  | none =>
      have hnan := lowest_eq_none_iff.1 h x (List.mem_of_getElem? hx.get)
      cases hnan.symm.trans hx.number
  | some j =>
      obtain ⟨y, hy⟩ := firstLowest_of_lowest h
      exact congrArg some (hy.unique hx)

theorem select_best_eq (xs : List Float) (g : G) :
    best.select xs g = ((lowest xs).elim .declined .chosen, g) := by
  simp only [select]
  cases lowest xs <;> rfl

theorem select_best_iff (xs : List Float) (g : G) :
    (best.select xs g).2 = g ∧
      ((best.select xs g).1 = .declined ↔ ∀ x ∈ xs, x.isNaN = true) ∧
      ((∃ i, (best.select xs g).1 = .chosen i) ↔ ∃ x ∈ xs, x.isNaN = false) ∧
      ∀ i, (best.select xs g).1 = .chosen i ↔ ∃ x, FirstLowest xs i x := by
  rw [select_best_eq]
  refine ⟨rfl, ?_, ?_, fun i => ?_⟩
  · rw [← lowest_eq_none_iff]
    cases lowest xs with
    | none => exact iff_of_true rfl rfl
    | some j => exact iff_of_false (fun h => nomatch h) (fun h => nomatch h)
  · constructor
    · rintro ⟨i, hi⟩
      rw [← select_best_eq xs g] at hi
      obtain ⟨x, hget, hnum⟩ := isNaN_of_chosen hi
      exact ⟨x, List.mem_of_getElem? hget, hnum⟩
    · rintro ⟨x, hx, hnum⟩
      cases h : lowest xs with
      | none => cases (lowest_eq_none_iff.1 h x hx).symm.trans hnum
      | some i => exact ⟨i, rfl⟩
  · rw [← lowest_eq_some_iff]
    cases lowest xs with
    | none => exact iff_of_false (fun h => nomatch h) (fun h => nomatch h)
    | some j => exact ⟨fun h => by cases h; rfl, fun h => by cases h; rfl⟩

-- Zeros of both signs are equal, so the first of them is chosen.
example : lowest [0.0 / 0.0, infinite, 0.0, -0.0, 0.5] = some 2 := by decide

end RuleInduction.Strategy
