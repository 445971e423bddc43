import Std.Data.ExtTreeMap
import RuleInduction.Mode
import RuleInduction.Error
import RuleInduction.ConstantPool
import RuleInduction.Text.Character

namespace RuleInduction

abbrev Signatures := Std.ExtTreeMap Predicate (List String)

namespace Signatures

def add (signatures : Signatures) (m : Mode) : Except SetupError Signatures :=
  match signatures[m.predicate]? with
  | none => .ok (signatures.insert m.predicate m.types)
  | some types => if types = m.types then .ok signatures else .error (.inconsistentModes m.predicate)

def ofModes (modes : List Mode) : Except SetupError Signatures :=
  modes.foldlM add ∅

def types (signatures : Signatures) (p : Predicate) : List String :=
  signatures[p]?.getD []

end Signatures

structure SearchSpace where
  target : Predicate
  modes : List Mode
  signatures : Signatures
  constants : ConstantPool

namespace SearchSpace

def ofModes (target : String) (modes : List Mode) (background : List Fact) :
    Except SetupError SearchSpace := do
  let name := Text.trim target.toList
  if name.isEmpty then throw .missingTarget
  let target := String.ofList name
  let signatures ← Signatures.ofModes modes
  if target ∉ signatures then throw (.noTargetModes target)
  return ⟨target, modes, signatures, .derive modes background⟩

def targetTypes (space : SearchSpace) : List String :=
  space.signatures.types space.target

def bodyPredicates (space : SearchSpace) (recursive : Bool) : List Predicate :=
  space.signatures.keys.filter fun p => recursive || p ≠ space.target

end SearchSpace

end RuleInduction
