import RuleInduction.Text.Character
import RuleInduction.Decimal

namespace RuleInduction

/-- Where a reader stopped. No other reading is tried once it has committed itself. -/
structure Stop where
  rest : List Char
  committed : Bool
  deriving DecidableEq, Repr

namespace Line

open Text

def stopAt {α : Type} (rest : List Char) : Except Stop α :=
  .error ⟨rest, false⟩

def expect (c : Char) : List Char → Except Stop (List Char)
  | d :: rest => if d = c then .ok rest else stopAt (d :: rest)
  | [] => stopAt []

def name (cs : List Char) : Except Stop (List Char × List Char) :=
  let cs := skipBlanks cs
  match cs.takeWhile isIdentChar with
  | [] => stopAt cs
  | c :: word => .ok (c :: word, skipBlanks (cs.dropWhile isIdentChar))

def finish {α : Type} (value : α) (rest : List Char) : Except Stop α :=
  if rest.isEmpty then .ok value else stopAt rest

def offset (line rest : List Char) : Nat :=
  byteLength line - byteLength rest

theorem eq_cons_of_expect {c : Char} {cs rest : List Char} (h : expect c cs = .ok rest) :
    cs = c :: rest := by
  cases cs with
  | nil => cases h
  | cons d ds =>
      simp only [expect] at h
      split at h
      · next hd => cases h; rw [hd]
      · cases h

end Line

end RuleInduction
