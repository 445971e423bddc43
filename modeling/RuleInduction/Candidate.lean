import RuleInduction.ConstantPool
import RuleInduction.FreshNames
import RuleInduction.Literal
import RuleInduction.Scope

namespace RuleInduction

structure Surroundings where
  constants : ConstantPool
  head : Scope
  body : Scope

def Mode.eligible (m : Mode) (s : Surroundings) : Bool :=
  m.slots.all fun slot =>
    slot.symbol ≠ .input ||
      !(s.head.vars slot.type).isEmpty || !(s.body.vars slot.type).isEmpty

def Mode.allowed (allowed : Std.ExtTreeSet Predicate) (s : Surroundings) (m : Mode) : Bool :=
  allowed.contains m.predicate && m.eligible s

namespace Slot

def terms (slot : Slot) (s : Surroundings) (fresh : String) : List Term :=
  let head := (s.head.vars slot.type).map Term.var
  let body := (s.body.vars slot.type).map Term.var
  match slot.symbol with
  | .constant => (s.constants.values slot.type).map Term.ofValue
  | .input => head ++ body
  | .output => .var fresh :: head ++ body
  | .bodyOutput => .var fresh :: body.filter fun t => !s.head.contains t.name

def takesName (slot : Slot) : Bool :=
  slot.symbol = .output || slot.symbol = .bodyOutput

def domain (slot : Slot) (s : Surroundings) (names : FreshNames) : List Term × FreshNames :=
  let (fresh, after) := names.next
  ((slot.terms s fresh).eraseDups, if slot.takesName then after else names)

def domains (s : Surroundings) : List Slot → FreshNames → List (List Term) × FreshNames
  | [], names => ([], names)
  | slot :: slots, names =>
    let (first, names) := slot.domain s names
    let (more, names) := domains s slots names
    (first :: more, names)

end Slot

def choices {α : Type} : List (List α) → List (List α)
  | [] => [[]]
  | xs :: rest => xs.flatMap fun x => (choices rest).map (x :: ·)

abbrev Candidates := Std.ExtTreeSet Literal

namespace Candidates

def ofMode (s : Surroundings) (names : FreshNames) (m : Mode) : List Literal :=
  (choices (Slot.domains s m.slots names).1).map (Literal.mk m.predicate)

/-- Each mode starts from the same names. -/
def generate (modes : List Mode) (allowed : Std.ExtTreeSet Predicate) (s : Surroundings)
    (names : FreshNames) : Candidates :=
  .ofList ((modes.filter (Mode.allowed allowed s)).flatMap (ofMode s names))

end Candidates

abbrev Hints := Std.ExtTreeMap Predicate Nat

namespace Hints

def unknown : Nat := 0xFFFFFFFFFFFFFFFF

def get (hints : Hints) (p : Predicate) : Nat :=
  min (hints[p]?.getD unknown) unknown

theorem get_le_unknown (hints : Hints) (p : Predicate) : hints.get p ≤ unknown :=
  Nat.min_le_right _ _

end Hints

namespace Literal

def searchCompare (hints : Hints) : Literal → Literal → Ordering :=
  compareLex (compareOn openCount)
    (compareLex (fun l m => compareOn constantCount m l)
      (compareLex (compareOn fun l => hints.get l.predicate) compare))

instance (hints : Hints) : Std.TransCmp (searchCompare hints) :=
  inferInstanceAs (Std.TransCmp (compareLex (compareOn openCount)
    (compareLex (fun l m => compareOn constantCount m l)
      (compareLex (compareOn fun l => hints.get l.predicate) compare))))

end Literal

def Candidates.ordered (hints : Hints) (candidates : Candidates) : List Literal :=
  candidates.toList.mergeSort fun l m => (l.searchCompare hints m).isLE

end RuleInduction
