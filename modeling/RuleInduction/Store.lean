import Std.Data.ExtTreeMap
import RuleInduction.Fact

namespace RuleInduction

structure Row where
  values : List String
  weight : Float
  deriving BEq, Repr

abbrev Relation := List Row

namespace Relation

def totalWeight (r : Relation) : Float :=
  sum (r.map Row.weight)

end Relation

def Fact.row (f : Fact) : Row :=
  ⟨f.arguments, f.weight⟩

structure Store where
  relations : Std.ExtTreeMap Predicate Relation

namespace Store

def empty : Store := ⟨∅⟩

def relation? (s : Store) (p : Predicate) : Option Relation :=
  s.relations[p]?

def rows (s : Store) (p : Predicate) : List Row :=
  (s.relation? p).getD []

def append (s : Store) (p : Predicate) (rows : List Row) : Store :=
  ⟨s.relations.alter p fun r? => some (r?.getD [] ++ rows)⟩

def insert (s : Store) (f : Fact) : Store :=
  s.append f.predicate [f.row]

def extend (s : Store) (facts : List Fact) : Store :=
  facts.foldl insert s

def compile (facts : List Fact) : Store :=
  empty.extend facts

def merge (s t : Store) : Store :=
  t.relations.toList.foldl (fun u r => u.append r.1 r.2) s

def predicates (s : Store) : List Predicate :=
  s.relations.keys

def size (s : Store) : Nat :=
  s.relations.size

def isEmpty (s : Store) : Bool :=
  s.relations.isEmpty

/-- Equal relations for equal predicates; weights are compared as numbers. -/
instance : BEq Store := ⟨fun s t => s.relations == t.relations⟩

@[ext]
theorem ext {s t : Store} (h : ∀ p, s.relation? p = t.relation? p) : s = t := by
  cases s; cases t
  congr 1
  exact Std.ExtTreeMap.ext_getElem? h

@[simp]
theorem relation?_empty (p : Predicate) : empty.relation? p = none := by
  simp [relation?, empty]

theorem relation?_append (s : Store) (p q : Predicate) (rows : List Row) :
    (s.append p rows).relation? q =
      if p = q then some (s.rows q ++ rows) else s.relation? q := by
  simp only [relation?, append, Store.rows, Std.ExtTreeMap.getElem?_alter,
    Std.LawfulEqOrd.compare_eq_iff_eq]
  by_cases h : p = q <;> simp [h]

theorem rows_append (s : Store) (p q : Predicate) (rows : List Row) :
    (s.append p rows).rows q = if p = q then s.rows q ++ rows else s.rows q := by
  simp only [Store.rows, relation?_append]
  by_cases h : p = q <;> simp [h]

theorem rows_insert (s : Store) (f : Fact) (q : Predicate) :
    (s.insert f).rows q = if f.predicate = q then s.rows q ++ [f.row] else s.rows q :=
  rows_append s f.predicate q [f.row]

theorem extend_append (s : Store) (facts more : List Fact) :
    s.extend (facts ++ more) = (s.extend facts).extend more :=
  List.foldl_append

theorem rows_extend (s : Store) (facts : List Fact) (q : Predicate) :
    (s.extend facts).rows q =
      s.rows q ++ (facts.filter fun f => f.predicate = q).map Fact.row := by
  induction facts generalizing s with
  | nil => simp [extend]
  | cons f facts ih =>
      have h := ih (s.insert f)
      simp only [extend, List.foldl_cons] at h ⊢
      rw [h, rows_insert]
      by_cases hf : f.predicate = q <;> simp [hf]

theorem relation?_foldl_append_of_ne {p : Predicate} (rs : List (Predicate × Relation)) (s : Store)
    (h : ∀ r ∈ rs, r.1 ≠ p) :
    (rs.foldl (fun u r => u.append r.1 r.2) s).relation? p = s.relation? p := by
  induction rs generalizing s with
  | nil => rfl
  | cons r rs ih =>
      rw [List.foldl_cons, ih _ fun r' hr' => h r' (List.mem_cons_of_mem r hr'), relation?_append,
        if_neg (h r List.mem_cons_self)]

theorem relation?_foldl_append_of_mem {p : Predicate} {rows : Relation}
    (rs : List (Predicate × Relation)) (s : Store)
    (hd : rs.Pairwise fun a b => ¬ compare a.1 b.1 = .eq) (h : (p, rows) ∈ rs) :
    (rs.foldl (fun u r => u.append r.1 r.2) s).relation? p = some (s.rows p ++ rows) := by
  induction rs generalizing s with
  | nil => cases h
  | cons r rs ih =>
      obtain ⟨hr, hd⟩ := List.pairwise_cons.1 hd
      rw [List.foldl_cons]
      rcases List.mem_cons.1 h with h | h
      · subst h
        rw [relation?_foldl_append_of_ne rs _ fun r' hr' he => hr r' hr' (by simp [he]),
          relation?_append, if_pos rfl]
      · have hne : r.1 ≠ p := fun he => hr _ h (by simp [he])
        rw [ih _ hd h, rows_append, if_neg hne]

theorem relation?_merge (s t : Store) (p : Predicate) :
    (s.merge t).relation? p =
      match t.relation? p with
      | some rows => some (s.rows p ++ rows)
      | none => s.relation? p := by
  have hmem : ∀ rows, (p, rows) ∈ t.relations.toList ↔ t.relation? p = some rows :=
    fun _ => Std.ExtTreeMap.mem_toList_iff_getElem?_eq_some
  cases h : t.relation? p with
  | some rows =>
      exact relation?_foldl_append_of_mem _ s Std.ExtTreeMap.distinct_keys_toList ((hmem rows).2 h)
  | none =>
      refine relation?_foldl_append_of_ne _ s fun r hr he => ?_
      subst he
      have := (hmem r.2).1 hr
      rw [h] at this
      cases this

theorem rows_merge (s t : Store) (p : Predicate) : (s.merge t).rows p = s.rows p ++ t.rows p := by
  simp only [Store.rows, relation?_merge]
  cases t.relation? p with
  | some rows => simp
  | none => simp

end Store

structure RowRef where
  predicate : Predicate
  index : Nat
  deriving DecidableEq, Repr

structure View where
  store : Store
  hidden : Option RowRef

namespace Store

def view (s : Store) : View := ⟨s, none⟩

def viewWithout (s : Store) (row : RowRef) : View := ⟨s, some row⟩

end Store

namespace View

/-- The place of the hidden row, if it is one of the predicate. -/
def hiddenIndex? (v : View) (p : Predicate) : Option Nat :=
  v.hidden.bind fun row => if row.predicate = p then some row.index else none

def relation? (v : View) (p : Predicate) : Option (List Row) :=
  (v.store.relation? p).map fun rows =>
    match v.hiddenIndex? p with
    | some i => rows.eraseIdx i
    | none => rows

def rows (v : View) (p : Predicate) : List Row :=
  (v.relation? p).getD []

@[simp]
theorem rows_view (s : Store) (p : Predicate) : s.view.rows p = s.rows p := by
  simp [rows, relation?, Store.rows, Store.view, hiddenIndex?]

end View

end RuleInduction
