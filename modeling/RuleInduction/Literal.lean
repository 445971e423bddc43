import RuleInduction.Term

namespace RuleInduction

structure Literal where
  predicate : Predicate
  arguments : List Term
  deriving DecidableEq, Repr, Inhabited

namespace Literal

def constantCount (l : Literal) : Nat :=
  l.arguments.countP Term.isGround

def openCount (l : Literal) : Nat :=
  l.arguments.length - l.constantCount

def vars (l : Literal) : List String :=
  l.arguments.filterMap Term.named?

def render (l : Literal) : String :=
  l.predicate ++ "(" ++ ", ".intercalate (l.arguments.map Term.render) ++ ")"

theorem mem_vars {l : Literal} {x : String} :
    x ∈ l.vars ↔ Term.var x ∈ l.arguments ∧ x ≠ Term.anonymousName := by
  simp only [vars, List.mem_filterMap, Term.named?_eq_some]
  constructor
  · intro ⟨_, ht, h, hx⟩; exact ⟨h ▸ ht, hx⟩
  · intro ⟨ht, hx⟩; exact ⟨_, ht, rfl, hx⟩

instance : Ord Literal := ⟨compareLex (compareOn predicate) (compareOn arguments)⟩

theorem compare_def : (compare : Literal → Literal → Ordering) =
    compareLex (compareOn predicate) (compareOn arguments) := rfl

instance : Std.TransOrd Literal :=
  inferInstanceAs (Std.TransCmp (compareLex (compareOn predicate) (compareOn arguments)))

instance : Std.LawfulEqOrd Literal where
  eq_of_compare {l m} h := by
    rw [compare_def, compareLex_eq_eq] at h
    obtain ⟨hp, ha⟩ := h
    have hp : l.predicate = m.predicate := Std.LawfulEqOrd.eq_of_compare hp
    have ha : l.arguments = m.arguments := Std.LawfulEqOrd.eq_of_compare ha
    cases l; cases m; simp_all

end Literal

abbrev Clause := List Literal

namespace Clause

def vars (c : Clause) : List String :=
  (c.flatMap Literal.vars).eraseDups

def render (c : Clause) : String :=
  ", ".intercalate (c.map Literal.render)

end Clause

end RuleInduction
