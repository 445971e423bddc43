import Std.Data.ExtTreeSet

namespace RuleInduction

structure FreshNames where
  used : Std.ExtTreeSet String
  cursor : Nat

namespace FreshNames

def empty : FreshNames := ⟨∅, 0⟩

def ofUsed (names : List String) : FreshNames :=
  ⟨.ofList names, 0⟩

def nameAt (place : Nat) : String :=
  if place < 26 then String.singleton (Char.ofNat (0x41 + place))
  else "Var" ++ Nat.repr (place - 25)

def seek (used : Std.ExtTreeSet String) : Nat → Nat → Nat
  | 0, place => place
  | steps + 1, place => if nameAt place ∈ used then seek used steps (place + 1) else place

/-- As many places as there are names in use always suffice to pass them. -/
def next (names : FreshNames) : String × FreshNames :=
  let place := seek names.used names.used.size names.cursor
  (nameAt place, ⟨names.used.insert (nameAt place), place + 1⟩)

def take : Nat → FreshNames → List String × FreshNames
  | 0, names => ([], names)
  | n + 1, names =>
    let (name, names) := names.next
    let (more, names) := take n names
    (name :: more, names)

def reserve (names : FreshNames) (name : String) : FreshNames :=
  ⟨names.used.insert name, names.cursor⟩

def isUsed (names : FreshNames) (name : String) : Bool :=
  names.used.contains name

end FreshNames

end RuleInduction
