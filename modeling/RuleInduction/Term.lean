namespace RuleInduction

abbrev Predicate := String

inductive Term where
  | var (name : String)
  | const (name : String)
  deriving DecidableEq, Repr, Inhabited

namespace Term

def anonymousName : String := "_"

def ofValue (value : String) : Term :=
  .const (String.ofList (value.toList.filter (· ≠ '\"')))

def name : Term → String
  | var x => x
  | const v => v

def isGround : Term → Bool
  | var _ => false
  | const _ => true

def isAnonymous : Term → Bool
  | var x => x = anonymousName
  | const _ => false

def named? : Term → Option String
  | var x => if x = anonymousName then none else some x
  | const _ => none

def render : Term → String
  | var x => x
  | const v => "\"" ++ v ++ "\""

theorem named?_eq_some {t : Term} {x : String} :
    t.named? = some x ↔ t = var x ∧ x ≠ anonymousName := by
  cases t with
  | var y =>
      by_cases h : y = anonymousName
      · simp only [named?, h, if_true, var.injEq]
        constructor
        · intro hx; cases hx
        · intro ⟨hx, hne⟩; exact absurd hx.symm hne
      · simp only [named?, h, if_false, Option.some.injEq, var.injEq]
        constructor
        · intro hx; exact ⟨hx, hx ▸ h⟩
        · intro ⟨hx, _⟩; exact hx
  | const v => simp [named?]

instance : Ord Term := ⟨compareLex (compareOn isGround) (compareOn name)⟩

theorem compare_def : (compare : Term → Term → Ordering) =
    compareLex (compareOn isGround) (compareOn name) := rfl

instance : Std.TransOrd Term :=
  inferInstanceAs (Std.TransCmp (compareLex (compareOn isGround) (compareOn name)))

instance : Std.LawfulEqOrd Term where
  eq_of_compare {s t} h := by
    rw [compare_def, compareLex_eq_eq] at h
    obtain ⟨hg, hn⟩ := h
    have hg : s.isGround = t.isGround := Std.LawfulEqOrd.eq_of_compare hg
    have hn : s.name = t.name := Std.LawfulEqOrd.eq_of_compare hn
    cases s <;> cases t <;> simp_all [isGround, name]

end Term

end RuleInduction
