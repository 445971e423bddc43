import Mathlib.Tactic.Choose
import RuleInduction.Proofs.Matching.Assignment
import RuleInduction.Proofs.Matching.Narrowing
import RuleInduction.Proofs.Store

namespace RuleInduction

def Literal.InstanceOf (l : Literal) (t : String → String) (row : Row) : Prop :=
  List.Forall₂ (fun a w => ∀ u ∈ a.value? t, w = u) l.arguments row.values

def Bindings.Single (b : Bindings) : Prop :=
  ∀ (x : String) (values : Values), b.get? x = some values → ∃ w, ∀ u, u ∈ values ↔ u = w

structure Literal.Shares (l : Literal) (b : Bindings) (before : Clause) (x : String) : Prop where
  mem : x ∈ l.vars
  before : x ∈ before.flatMap Literal.vars
  unbound : b.get? x = none

structure Literal.Joins (l : Literal) (b : Bindings) (before : Clause) : Prop where
  once : ∀ x ∈ l.vars, b.get? x = none → ∀ i j : Nat,
    l.arguments[i]? = some (.var x) → l.arguments[j]? = some (.var x) → i = j
  single : ∀ x y, l.Shares b before x → l.Shares b before y → x = y
  adjacent : ∀ x, l.Shares b before x → ∃ m, before.getLast? = some m ∧ x ∈ m.vars

inductive Clause.Chained (b : Bindings) : Clause → Prop
  | nil : Chained b []
  | snoc {c : Clause} {l : Literal} (h : Chained b c) (hl : l.Joins b c) : Chained b (c ++ [l])

structure Clause.Joint (c : Clause) (b : Bindings) (v : View) (t : String → String) : Prop where
  allows : b.Allows t
  holds : ∀ l ∈ c, ∃ row ∈ v.rows l.predicate, l.Holds t row

variable {v : View} {b d : Bindings} {c : Clause} {l m : Literal} {t t' : String → String}
  {row : Row}

namespace Literal

theorem Holds.congr (h : l.Holds t row) (ht : ∀ x ∈ l.vars, t x = t' x) : l.Holds t' row := by
  rintro ⟨a, i⟩ he w hw
  refine h (a, i) he w ?_
  cases a with
  | const u => exact hw
  | var x =>
      by_cases hx : x = Term.anonymousName
      · simp [Term.value?, hx] at hw
      · rw [Option.mem_def, Term.value?_var hx] at hw ⊢
        have hmem : x ∈ l.vars :=
          mem_vars.2 ⟨List.mem_of_getElem? (List.mem_zipIdx_iff_getElem?.1 he), hx⟩
        rw [ht x hmem, hw]

theorem instanceOf_iff (h : row.values.length = l.arguments.length) :
    l.InstanceOf t row ↔ l.Holds t row := by
  rw [InstanceOf, List.forall₂_iff_get]
  constructor
  · rintro ⟨_, hget⟩ ⟨a, i⟩ he w hw
    have ha : l.arguments[i]? = some a := List.mem_zipIdx_iff_getElem?.1 he
    obtain ⟨hi, rfl⟩ := List.getElem?_eq_some_iff.1 ha
    have hi' : i < row.values.length := h ▸ hi
    rw [List.getElem?_eq_getElem hi']
    exact congrArg some (hget i hi hi' w hw)
  · intro hholds
    refine ⟨h.symm, fun i hi hi' u hu => ?_⟩
    have hvalue := hholds.value (List.getElem?_eq_getElem hi) hu
    rw [List.getElem?_eq_getElem hi'] at hvalue
    exact Option.some.inj hvalue

theorem exists_value_of_admits (h : l.admits d row = true) {i : Nat} {x : String} {values : Values}
    (hi : l.arguments[i]? = some (.var x)) (hx : x ≠ Term.anonymousName)
    (hget : d.get? x = some values) : ∃ w ∈ values, row.values[i]? = some w := by
  have hadmits := admits_iff.1 h i (.var x) hi
  cases hvalue : row.values[i]? with
  | none => simp [Term.constraint, hx, hget, Constraint.admits, hvalue] at hadmits
  | some w =>
      refine ⟨w, ?_, rfl⟩
      simpa [Term.constraint, hx, hget, Constraint.admits, hvalue] using hadmits

def valueIn (l : Literal) (row : Row) (x : String) : String :=
  (row.values[l.arguments.idxOf (.var x)]?).getD ""

theorem getElem?_valueIn (hwidth : row.values.length = l.arguments.length) {x : String} {i : Nat}
    (honce : ∀ j : Nat, l.arguments[j]? = some (.var x) → j = i)
    (hi : l.arguments[i]? = some (.var x)) : row.values[i]? = some (l.valueIn row x) := by
  have hlt := List.idxOf_lt_length_of_mem (List.mem_of_getElem? hi)
  have hfirst : l.arguments.idxOf (.var x) = i := by
    refine honce _ ?_
    rw [List.getElem?_eq_getElem hlt, List.getElem_idxOf hlt]
  have hi' : i < row.values.length := by omega
  rw [valueIn, hfirst, List.getElem?_eq_getElem hi']
  rfl

end Literal

theorem Clause.Joint.snoc (h : c.Joint b v t) (hrow : row ∈ v.rows l.predicate)
    (hholds : l.Holds t row) : Clause.Joint (c ++ [l]) b v t := by
  refine ⟨h.allows, fun m hm => ?_⟩
  rcases List.mem_append.1 hm with hm | hm
  · exact h.holds m hm
  · obtain rfl := List.mem_singleton.1 hm
    exact ⟨row, hrow, hholds⟩

theorem Clause.Joint.exists_picks (h : c.Joint b v t) : ∃ picks, c.HoldsOf t v picks := by
  obtain ⟨hb, h⟩ := h
  induction c with
  | nil => exact ⟨[], .nil⟩
  | cons l c ih =>
      obtain ⟨row, hrow, hholds⟩ := h l List.mem_cons_self
      obtain ⟨picks, hpicks⟩ := ih fun m hm => h m (List.mem_cons_of_mem l hm)
      exact ⟨row :: picks, .cons ⟨hrow, hholds⟩ hpicks⟩

theorem Literal.joins_of_shared {y : String} (hnodup : l.arguments.Nodup)
    (hshared : ∀ x, l.Shares b c x → x = y) (hlast : ∀ m ∈ c.getLast?, y ∈ m.vars) :
    l.Joins b c where
  once := by
    intro x _ _ i j hi hj
    have hlt := (List.getElem?_eq_some_iff.1 hi).1
    exact (List.getElem?_inj hlt hnodup).1 (hi.trans hj.symm)
  single := fun x x' hx hx' => (hshared x hx).trans (hshared x' hx').symm
  adjacent := by
    intro x hx
    obtain ⟨m, hm, _⟩ := List.mem_flatMap.1 hx.before
    have hlast? := List.getLast?_eq_some_getLast (List.ne_nil_of_mem hm)
    exact ⟨_, hlast?, hshared x hx ▸ hlast _ hlast?⟩

namespace Bindings

theorem Single.bind (h : b.Single) (x w : String) : (b.bind x (.ofList [w])).Single := by
  intro y values hy
  rw [get?_bind] at hy
  split at hy
  · cases hy
    exact ⟨w, fun u => by simpa using eq_comm⟩
  · exact h y values hy

theorem single_ofHead (head arguments : List String) : (ofHead head arguments).Single := by
  have hfold (entries : List (String × String)) (b : Bindings) (h : b.Single) :
      Single ((entries.map fun e => (e.1, Std.ExtTreeSet.ofList [e.2])).foldl
        (fun b e => b.bind e.1 e.2) b) := by
    induction entries generalizing b with
    | nil => exact h
    | cons e entries ih => exact ih _ (h.bind e.1 e.2)
  refine hfold (head.zip arguments) ∅ fun x values hx => ?_
  simp [get?] at hx

theorem Single.exists_allows (h : b.Single) : ∃ t, b.Allows t := by
  have hvalue (x : String) : ∃ w, ∀ values, b.get? x = some values → w ∈ values := by
    cases hx : b.get? x with
    | none =>
        refine ⟨"", fun values hget => ?_⟩
        cases hget
    | some values =>
        obtain ⟨w, hw⟩ := h x values hx
        refine ⟨w, fun values' hget => ?_⟩
        cases hget
        exact (hw w).2 rfl
  choose t ht using hvalue
  exact ⟨t, fun x values _ hx => ht x values hx⟩

end Bindings

-- A variable that has a value keeps it while the bindings only narrow.
theorem value_of_bound (hsingle : b.Single) (hb : b.Allows t) (hd : d.Within b)
    (hrow : l.admits d row = true) {x : String} {values : Values} (hget : b.get? x = some values)
    (hx : x ≠ Term.anonymousName) {i : Nat} (hi : l.arguments[i]? = some (.var x)) :
    row.values[i]? = some (t x) := by
  obtain ⟨values', hget', hsub⟩ := hd x values hget
  obtain ⟨u, hu, hvalue⟩ := Literal.exists_value_of_admits hrow hi hx hget'
  obtain ⟨w, hw⟩ := hsingle x values hget
  rw [hvalue, (hw u).1 (hsub u hu), (hw (t x)).1 (hb x values hx hget)]

-- What the assignment gives to the variables of the clause stays; those that are new take their
-- values from the row.
theorem exists_joint_of_row (hsingle : b.Single) (hjoint : c.Joint b v t) (hjoins : l.Joins b c)
    (hwidth : row.values.length = l.arguments.length) (hd : d.Within b)
    (hrow : l.admits d row = true) (hshared : ∀ x, l.Shares b c x → ∀ i : Nat,
      l.arguments[i]? = some (.var x) → row.values[i]? = some (t x)) :
    ∃ t', c.Joint b v t' ∧ l.Holds t' row := by
  classical
  let new (x : String) : Prop := b.get? x = none ∧ x ∉ c.flatMap Literal.vars
  let t' (x : String) : String := if new x then l.valueIn row x else t x
  have hold (x : String) (hx : ¬ new x) : t x = t' x := (if_neg hx).symm
  have hbound (x : String) (values : Values) (hget : b.get? x = some values) : ¬ new x := by
    rintro ⟨hnone, _⟩
    cases hnone.symm.trans hget
  have hb' : b.Allows t' := by
    intro x values hx hget
    rw [← hold x (hbound x values hget)]
    exact hjoint.allows x values hx hget
  refine ⟨t', ⟨hb', fun m hm => ?_⟩, ?_⟩
  · obtain ⟨row', hrow', hholds⟩ := hjoint.holds m hm
    refine ⟨row', hrow', hholds.congr fun x hx => hold x ?_⟩
    rintro ⟨_, hnew⟩
    exact hnew (List.mem_flatMap.2 ⟨m, hm, hx⟩)
  · rintro ⟨a, i⟩ he w hw
    have ha : l.arguments[i]? = some a := List.mem_zipIdx_iff_getElem?.1 he
    cases a with
    | const u =>
        cases hw
        simpa [Term.constraint, Constraint.admits] using Literal.admits_iff.1 hrow i _ ha
    | var x =>
        by_cases hx : x = Term.anonymousName
        · simp [Term.value?, hx] at hw
        · rw [Option.mem_def, Term.value?_var hx] at hw
          cases hw
          have hmem : x ∈ l.vars := Literal.mem_vars.2 ⟨List.mem_of_getElem? ha, hx⟩
          cases hget : b.get? x with
          | some values => exact value_of_bound hsingle hb' hd hrow hget hx ha
          | none =>
              by_cases hnew : new x
              · have ht' : t' x = l.valueIn row x := if_pos hnew
                rw [ht']
                exact Literal.getElem?_valueIn hwidth
                  (fun j hj => hjoins.once x hmem hget j i hj ha) ha
              · have hbefore : x ∈ c.flatMap Literal.vars := by
                  by_contra hn
                  exact hnew ⟨hget, hn⟩
                rw [← hold x hnew]
                exact hshared x ⟨hmem, hbefore, hget⟩ i ha

-- The variable that joins two literals is bound to the column of the rows kept for the first, so
-- one of these rows has the value that a row kept for the second has.
theorem exists_adjoining_row (hmatched : progress v b (c ++ [m]) = (c ++ [m]).length)
    (hjoins : l.Joins b (c ++ [m])) (hrow : row ∈ l.kept v (settled v b (c ++ [m]))) :
    ∃ row' ∈ m.kept v (settled v b c), ∀ t, m.Holds t row' → ∀ x, l.Shares b (c ++ [m]) x →
      ∀ i : Nat, l.arguments[i]? = some (.var x) → row.values[i]? = some (t x) := by
  obtain ⟨hprogress, hne⟩ := kept_ne_nil_of_progress hmatched
  by_cases hshares : ∃ x, l.Shares b (c ++ [m]) x
  · obtain ⟨x, hx⟩ := hshares
    obtain ⟨hvar, hanonymous⟩ := Literal.mem_vars.1 hx.mem
    obtain ⟨i, hi⟩ := List.mem_iff_getElem?.1 hvar
    obtain ⟨m', hm', hmem⟩ := hjoins.adjacent x hx
    rw [List.getLast?_concat, Option.some.injEq] at hm'
    subst hm'
    rcases m.get?_rebind (m.kept v (settled v b c)) (settled v b c) x with
      ⟨_, j, hj, _, hget⟩ | ⟨hx', _⟩
    · have hlast : settled v b (c ++ [m]) =
          m.rebind (m.kept v (settled v b c)) (settled v b c) := by
        rw [settled_append hprogress, settled, pass_cons_of_ne_nil hne]
        rfl
      rw [← hlast] at hget
      obtain ⟨w, hw, hvalue⟩ := Literal.exists_value_of_admits (Literal.mem_kept.1 hrow).2 hi
        hanonymous hget
      obtain ⟨row', hrow', hcolumn⟩ := Literal.mem_column.1 hw
      refine ⟨row', hrow', fun t ht y hy k hk => ?_⟩
      obtain rfl := hjoins.single x y hx hy
      obtain rfl := hjoins.once x hx.mem hx.unbound i k hi hk
      rw [hvalue, ← hcolumn]
      exact ht.value hj (Term.value?_var hanonymous)
    · exact absurd hmem hx'
  · obtain ⟨row', hrow'⟩ := List.exists_mem_of_ne_nil _ hne
    exact ⟨row', hrow', fun _ _ x hx => absurd ⟨x, hx⟩ hshares⟩

-- The invariant along the chain: each row that is kept is the end of a joint assignment.
theorem exists_joint_of_kept (hsingle : b.Single) (hchain : c.Chained b)
    (hmatched : progress v b c = c.length)
    (hwidth : ∀ l ∈ c, ∀ row ∈ v.rows l.predicate, row.values.length = l.arguments.length)
    (hjoins : l.Joins b c) (hlength : row.values.length = l.arguments.length)
    (hrow : row ∈ l.kept v (settled v b c)) : ∃ t, c.Joint b v t ∧ l.Holds t row := by
  have hadmits := (Literal.mem_kept.1 hrow).2
  induction hchain generalizing l row with
  | nil =>
      obtain ⟨t, ht⟩ := hsingle.exists_allows
      have hjoint : Clause.Joint [] b v t := ⟨ht, fun _ hm => absurd hm List.not_mem_nil⟩
      refine exists_joint_of_row hsingle hjoint hjoins hlength (settled_within v b []) hadmits ?_
      intro x hx
      exact absurd hx.before List.not_mem_nil
  | @snoc c m hchain hm ih =>
      obtain ⟨row', hrow', hshared⟩ := exists_adjoining_row hmatched hjoins hrow
      obtain ⟨hvisible, hadmits'⟩ := Literal.mem_kept.1 hrow'
      have hlength' := hwidth m (List.mem_append_right _ (List.mem_singleton_self m)) row' hvisible
      obtain ⟨t, ht, hholds⟩ := ih (kept_ne_nil_of_progress hmatched).1
        (fun l hl => hwidth l (List.mem_append_left _ hl)) hm hlength' hrow' hadmits'
      exact exists_joint_of_row hsingle (ht.snoc hvisible hholds) hjoins hlength
        (settled_within v b (c ++ [m])) hadmits (hshared t hholds)

theorem exists_joint_of_matched (hsingle : b.Single) (hchain : c.Chained b)
    (hmatched : progress v b c = c.length)
    (hwidth : ∀ l ∈ c, ∀ row ∈ v.rows l.predicate, row.values.length = l.arguments.length) :
    ∃ t, c.Joint b v t := by
  cases hchain with
  | nil =>
      obtain ⟨t, ht⟩ := hsingle.exists_allows
      exact ⟨t, ht, fun _ hl => absurd hl List.not_mem_nil⟩
  | @snoc c l hchain hl =>
      obtain ⟨hprogress, hne⟩ := kept_ne_nil_of_progress hmatched
      obtain ⟨row, hrow⟩ := List.exists_mem_of_ne_nil _ hne
      have hvisible := (Literal.mem_kept.1 hrow).1
      have hlength := hwidth l (List.mem_append_right _ (List.mem_singleton_self l)) row hvisible
      obtain ⟨t, ht, hholds⟩ := exists_joint_of_kept hsingle hchain hprogress
        (fun m hm => hwidth m (List.mem_append_left _ hm)) hl hlength hrow
      exact ⟨t, ht.snoc hvisible hholds⟩

theorem matched_chain_iff (v : View) (b : Bindings) (c : Clause)
    (hwidth : ∀ l ∈ c, ∀ row ∈ v.rows l.predicate, row.values.length = l.arguments.length)
    (hsingle : b.Single) (hchain : c.Chained b) :
    binaryStrengths v b c = List.replicate c.length 1.0 ↔
      ∃ t : String → String, b.Allows t ∧
        ∀ l ∈ c, ∃ row ∈ v.rows l.predicate, l.InstanceOf t row := by
  rw [binaryStrengths_eq_ones]
  constructor
  · intro hmatched
    obtain ⟨t, ht⟩ := exists_joint_of_matched hsingle hchain hmatched hwidth
    refine ⟨t, ht.allows, fun l hl => ?_⟩
    obtain ⟨row, hrow, hholds⟩ := ht.holds l hl
    exact ⟨row, hrow, (Literal.instanceOf_iff (hwidth l hl row hrow)).2 hholds⟩
  · rintro ⟨t, hb, hinstances⟩
    have hjoint : c.Joint b v t := by
      refine ⟨hb, fun l hl => ?_⟩
      obtain ⟨row, hrow, hinstance⟩ := hinstances l hl
      exact ⟨row, hrow, (Literal.instanceOf_iff (hwidth l hl row hrow)).1 hinstance⟩
    obtain ⟨picks, hpicks⟩ := hjoint.exists_picks
    exact progress_of_holds hb hpicks

theorem matched_chain_of_grandparents :
    let v := (Store.compile [⟨1.0, "parent", ["a", "b"]⟩, ⟨0.5, "parent", ["b", "c"]⟩,
      ⟨2.0, "older", ["a", "c", "30"]⟩]).view
    let b := Bindings.ofHead ["A"] ["a"]
    let c : Clause := [⟨"parent", [.var "A", .var "B"]⟩, ⟨"parent", [.var "B", .var "C"]⟩,
      ⟨"older", [.var "A", .var "C", .var "_"]⟩]
    (∀ l ∈ c, ∀ row ∈ v.rows l.predicate, row.values.length = l.arguments.length) ∧ b.Single ∧
      c.Chained b ∧ binaryStrengths v b c = [1.0, 1.0, 1.0] ∧
      ∃ t : String → String, b.Allows t ∧
        ∀ l ∈ c, ∃ row ∈ v.rows l.predicate, l.InstanceOf t row := by
  intro v b c
  have hwidth : ∀ l ∈ c, ∀ row ∈ v.rows l.predicate,
      row.values.length = l.arguments.length := by decide +kernel
  have hshared {l : Literal} {before : Clause} {y : String}
      (hy : (l.vars.filter fun x => x ∈ before.flatMap Literal.vars ∧ x ≠ "A") ⊆ [y])
      (x : String) (h : l.Shares b before x) : x = y := by
    refine List.mem_singleton.1 (hy (List.mem_filter.2 ⟨h.mem, decide_eq_true ⟨h.before, ?_⟩⟩))
    rintro rfl
    cases h.unbound
  have hchain : c.Chained b := by
    refine .snoc (.snoc (.snoc .nil (l := ⟨"parent", _⟩) ?_) (l := ⟨"parent", _⟩) ?_)
      (l := ⟨"older", _⟩) ?_
    · exact Literal.joins_of_shared (y := "") (by decide) (hshared (by decide)) (by decide)
    · exact Literal.joins_of_shared (y := "B") (by decide) (hshared (by decide)) (by decide)
    · exact Literal.joins_of_shared (y := "C") (by decide) (hshared (by decide)) (by decide)
  have hmatched : binaryStrengths v b c = [1.0, 1.0, 1.0] := rfl
  have h := matched_chain_iff v b c hwidth (Bindings.single_ofHead _ _) hchain
  exact ⟨hwidth, Bindings.single_ofHead _ _, hchain, hmatched, h.1 hmatched⟩

end RuleInduction
