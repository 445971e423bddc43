import RuleInduction.Term

namespace RuleInduction

inductive ModeSymbol where
  | input
  | output
  | bodyOutput
  | constant
  deriving DecidableEq, Repr

namespace ModeSymbol

def toChar : ModeSymbol → Char
  | input => '+'
  | output => '-'
  | bodyOutput => '\x60'
  | constant => '#'

def ofChar? (c : Char) : Option ModeSymbol :=
  [input, output, bodyOutput, constant].find? (·.toChar = c)

theorem ofChar?_toChar (s : ModeSymbol) : ofChar? s.toChar = some s := by
  cases s <;> rfl

theorem toChar_of_ofChar? {c : Char} {s : ModeSymbol} (h : ofChar? c = some s) : s.toChar = c := by
  have := List.find?_some h
  simpa using this

end ModeSymbol

structure Slot where
  symbol : ModeSymbol
  type : String
  deriving DecidableEq, Repr

structure Mode where
  predicate : Predicate
  slots : List Slot
  deriving DecidableEq, Repr

namespace Slot

def render (s : Slot) : String :=
  s.symbol.toChar.toString ++ s.type

end Slot

namespace Mode

def arity (m : Mode) : Nat :=
  m.slots.length

def types (m : Mode) : List String :=
  m.slots.map Slot.type

def render (m : Mode) : String :=
  m.predicate ++ "(" ++ ",".intercalate (m.slots.map Slot.render) ++ ")."

end Mode

end RuleInduction
