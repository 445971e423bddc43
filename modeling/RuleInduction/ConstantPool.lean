import Std.Data.ExtTreeMap
import Std.Data.ExtTreeSet
import RuleInduction.Mode
import RuleInduction.Fact

namespace RuleInduction

structure ConstantPool where
  byType : Std.ExtTreeMap String (Std.ExtTreeSet String)

namespace ConstantPool

def empty : ConstantPool := ⟨∅⟩

def isEmpty (pool : ConstantPool) : Bool :=
  pool.byType.isEmpty

def get? (pool : ConstantPool) (type : String) : Option (Std.ExtTreeSet String) :=
  pool.byType[type]?

def values (pool : ConstantPool) (type : String) : List String :=
  match pool.get? type with
  | some values => values.toList
  | none => []

def add (pool : ConstantPool) (entry : String × String) : ConstantPool :=
  ⟨pool.byType.alter entry.1 fun values? => some ((values?.getD ∅).insert entry.2)⟩

def ofList (entries : List (String × String)) : ConstantPool :=
  entries.foldl add empty

def valueAt? (m : Mode) (slot : Slot × Nat) (f : Fact) : Option (String × String) :=
  if slot.1.symbol = .constant ∧ f.predicate = m.predicate then
    f.arguments[slot.2]?.map (slot.1.type, ·)
  else none

def entries (modes : List Mode) (facts : List Fact) : List (String × String) :=
  modes.flatMap fun m => m.slots.zipIdx.flatMap fun slot => facts.filterMap (valueAt? m slot)

def derive (modes : List Mode) (facts : List Fact) : ConstantPool :=
  ofList (entries modes facts)

end ConstantPool

end RuleInduction
