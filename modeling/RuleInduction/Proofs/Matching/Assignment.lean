import Mathlib.Data.List.Forall2
import RuleInduction.Proofs.Matching.Progress

namespace RuleInduction

def Term.value? (t : String → String) : Term → Option String
  | .var x => if x = anonymousName then none else some (t x)
  | .const v => some v

def Literal.Holds (l : Literal) (t : String → String) (row : Row) : Prop :=
  ∀ e ∈ l.arguments.zipIdx, ∀ w ∈ e.1.value? t, row.values[e.2]? = some w

instance (l : Literal) (t : String → String) (row : Row) : Decidable (l.Holds t row) :=
  inferInstanceAs (Decidable (∀ e ∈ l.arguments.zipIdx, ∀ w ∈ e.1.value? t, _))

def Bindings.Allows (b : Bindings) (t : String → String) : Prop :=
  ∀ (x : String) (values : Values), x ≠ Term.anonymousName → b.get? x = some values → t x ∈ values

variable {b : Bindings} {t : String → String}

theorem Term.value?_var {x : String} (hx : x ≠ anonymousName) : (var x).value? t = some (t x) :=
  if_neg hx

theorem Term.admits_of_value? (hb : b.Allows t) {a : Term} {value? : Option String}
    (h : ∀ w, a.value? t = some w → value? = some w) :
    (a.constraint b).admits value? = true := by
  cases a with
  | const v =>
      have := h v rfl
      simp [constraint, Constraint.admits, this]
  | var x =>
      by_cases hx : x = anonymousName
      · simp [constraint, hx, Constraint.admits]
      · have hv := h _ (value?_var hx)
        cases hget : b.get? x with
        | none => simp [constraint, hx, hget, Constraint.admits]
        | some values =>
            have := hb x values hx hget
            simpa [constraint, hx, hget, Constraint.admits, hv] using this

theorem Literal.Holds.value {l : Literal} {row : Row} (h : l.Holds t row) {i : Nat} {a : Term}
    {w : String} (ha : l.arguments[i]? = some a) (hw : a.value? t = some w) :
    row.values[i]? = some w :=
  h (a, i) (List.mem_zipIdx_iff_getElem?.2 ha) w hw

theorem Literal.admits_of_holds (hb : b.Allows t) {l : Literal} {row : Row} (h : l.Holds t row) :
    l.admits b row = true := by
  rw [admits_iff]
  intro i a ha
  exact Term.admits_of_value? hb fun w hw => h.value ha hw

theorem Bindings.Allows.rebind (hb : b.Allows t) {l : Literal} {row : Row} {rows : List Row}
    (h : l.Holds t row) (hrow : row ∈ rows) : (l.rebind rows b).Allows t := by
  intro x values hx hget
  rcases l.get?_rebind rows b x with ⟨_, i, hi, _, hcol⟩ | ⟨_, hold⟩
  · rw [hcol] at hget
    cases hget
    exact Literal.mem_column.2 ⟨row, hrow, h.value hi (Term.value?_var hx)⟩
  · exact hb x values hx (hold ▸ hget)

def Clause.HoldsOf (c : Clause) (t : String → String) (v : View) (picks : List Row) : Prop :=
  List.Forall₂ (fun l row => row ∈ v.rows l.predicate ∧ l.Holds t row) c picks

variable {v : View} {c : Clause} {picks : List Row}

theorem Literal.mem_kept_of_holds (hb : b.Allows t) {l : Literal} {row : Row}
    (hrow : row ∈ v.rows l.predicate) (h : l.Holds t row) : row ∈ l.kept v b :=
  mem_kept.2 ⟨hrow, admits_of_holds hb h⟩

-- The invariant of a pass is that the bindings allow the assignment, so no pick is filtered out.
theorem mem_survivors_of_holds (hb : b.Allows t) (h : c.HoldsOf t v picks) :
    List.Forall₂ (fun rows row => row ∈ rows) (survivors v c b) picks := by
  induction h generalizing b with
  | nil => exact .nil
  | cons hl _ ih =>
      have hrow := Literal.mem_kept_of_holds hb hl.1 hl.2
      rw [survivors_cons_of_ne_nil (List.ne_nil_of_mem hrow)]
      exact .cons hrow (ih (hb.rebind hl.2 hrow))

theorem allows_bindings_pass (score : List Row → Float) (hb : b.Allows t)
    (h : c.HoldsOf t v picks) : (pass score v c b).bindings.Allows t := by
  induction h generalizing b with
  | nil => exact hb
  | cons hl _ ih =>
      have hrow := Literal.mem_kept_of_holds hb hl.1 hl.2
      rw [pass_cons_of_ne_nil (List.ne_nil_of_mem hrow)]
      exact ih (hb.rebind hl.2 hrow)

theorem progress_of_holds (hb : b.Allows t) (h : c.HoldsOf t v picks) :
    progress v b c = c.length :=
  (mem_survivors_of_holds hb h).length_eq.trans h.length_eq.symm

theorem strengths_of_holds (score : List Row → Float) (hb : b.Allows t)
    (h : c.HoldsOf t v picks) :
    (pass score v c b).strengths = (survivors v c b).map score := by
  have hlen := (mem_survivors_of_holds hb h).length_eq.trans h.length_eq.symm
  rw [strengths_pass, hlen, Nat.sub_self, List.replicate_zero, List.append_nil]

theorem strengths_of_assignment (v : View) (b : Bindings) (body : Clause) (t : String → String)
    (picks : List Row) (hb : b.Allows t) (h : body.HoldsOf t v picks) :
    binaryStrengths v b body = List.replicate body.length 1.0 ∧
    (weightedStrengths v b body).length = body.length ∧
    ∀ (k : Nat) (l : Literal) (row : Row), body[k]? = some l → picks[k]? = some row →
      ∃ rows : List Row, rows.Sublist (v.rows l.predicate) ∧ row ∈ rows ∧
        (weightedStrengths v b body)[k]? = some (meanWeight rows) := by
  have hb' := allows_bindings_pass matched hb h
  have hkept := mem_survivors_of_holds hb' h
  refine ⟨?_, length_strengths_pass _ _ _ _, ?_⟩
  · rw [binaryStrengths, strengths_of_holds matched hb h, List.eq_replicate_iff]
    refine ⟨?_, ?_⟩
    · rw [List.length_map, (mem_survivors_of_holds hb h).length_eq, ← List.Forall₂.length_eq h]
    · intro s hs
      obtain ⟨rows, _, rfl⟩ := List.mem_map.1 hs
      rfl
  · intro k l row hl hrow
    obtain ⟨hk, rfl⟩ := List.getElem?_eq_some_iff.1 hrow
    have hk' : k < (survivors v body (pass matched v body b).bindings).length :=
      hkept.length_eq ▸ hk
    have hget := List.getElem?_eq_getElem hk'
    refine ⟨_, sublist_of_survivors hl hget, hkept.get hk' hk, ?_⟩
    rw [weightedStrengths, strengths_of_holds meanWeight hb' h, List.getElem?_map, hget]
    rfl

theorem strengths_of_shared_variables :
    let v := (Store.compile
      [⟨0.5, "p", ["a", "b"]⟩, ⟨1.0, "p", ["a", "c"]⟩, ⟨2.0, "q", ["b", "d"]⟩]).view
    let b := Bindings.ofHead ["A"] ["a"]
    let c : Clause :=
      [⟨"p", [.var "A", .var "B"]⟩, ⟨"q", [.var "B", .var "_"]⟩, ⟨"p", [.var "A", .const "b"]⟩]
    let t := fun x => if x = "A" then "a" else "b"
    let picks : List Row := [⟨["a", "b"], 0.5⟩, ⟨["b", "d"], 2.0⟩, ⟨["a", "b"], 0.5⟩]
    b.Allows t ∧ c.HoldsOf t v picks ∧ binaryStrengths v b c = [1.0, 1.0, 1.0] ∧
      ∃ rows : List Row, rows.Sublist (v.rows "p") ∧ ⟨["a", "b"], 0.5⟩ ∈ rows ∧
        (weightedStrengths v b c)[0]? = some (meanWeight rows) := by
  intro v b c t picks
  have hb : b.Allows t := by
    intro x values _ hget
    have hbind : b = Bindings.bind ∅ "A" (.ofList ["a"]) := rfl
    rw [hbind, Bindings.get?_bind] at hget
    split at hget
    · next hx =>
        cases hget
        simp [← hx, t]
    · simp [Bindings.get?] at hget
  have hc : c.HoldsOf t v picks := by
    refine .cons ⟨?_, by decide⟩ (.cons ⟨?_, by decide⟩ (.cons ⟨?_, by decide⟩ .nil)) <;>
      simp [v, Store.compile, Store.rows_extend, Fact.row]
  have h := strengths_of_assignment v b c t picks hb hc
  exact ⟨hb, hc, h.1, h.2.2 0 _ _ rfl rfl⟩

end RuleInduction
