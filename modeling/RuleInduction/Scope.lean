namespace RuleInduction

structure Scope where
  entries : List (String × String)
  deriving DecidableEq, Repr

namespace Scope

def empty : Scope := ⟨[]⟩

def insert (s : Scope) (type x : String) : Scope :=
  if (type, x) ∈ s.entries then s else ⟨s.entries ++ [(type, x)]⟩

def vars (s : Scope) (type : String) : List String :=
  (s.entries.filter fun e => e.1 = type).map Prod.snd

def contains (s : Scope) (x : String) : Bool :=
  s.entries.any fun e => e.2 = x

def isEmpty (s : Scope) : Bool :=
  s.entries.isEmpty

theorem mem_entries_insert {s : Scope} {type x : String} {e : String × String} :
    e ∈ (s.insert type x).entries ↔ e ∈ s.entries ∨ e = (type, x) := by
  simp only [insert]
  split
  · next h =>
      constructor
      · exact Or.inl
      · intro he
        rcases he with he | he
        · exact he
        · exact he ▸ h
  · simp

theorem mem_vars {s : Scope} {type x : String} :
    x ∈ s.vars type ↔ (type, x) ∈ s.entries := by
  simp only [vars, List.mem_map, List.mem_filter, decide_eq_true_eq]
  constructor
  · intro ⟨e, ⟨he, ht⟩, hx⟩
    subst ht hx
    exact he
  · intro h
    exact ⟨_, ⟨h, rfl⟩, rfl⟩

theorem contains_iff {s : Scope} {x : String} :
    s.contains x = true ↔ ∃ type, (type, x) ∈ s.entries := by
  simp only [contains, List.any_eq_true, decide_eq_true_eq]
  constructor
  · intro ⟨e, he, hx⟩
    exact ⟨e.1, hx ▸ he⟩
  · intro ⟨type, h⟩
    exact ⟨_, h, rfl⟩

end Scope

end RuleInduction
