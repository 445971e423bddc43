import RuleInduction.Fact
import RuleInduction.Error
import RuleInduction.Decimal.Numeral

namespace RuleInduction.Fact

open Text Line

structure Parts where
  weight? : Option Float
  name : List Char
  arguments : List (List Char)

def readWeight (cs : List Char) : Except Stop (Float × List Char) := do
  let (weight, rest) ← Numeral.read (skipBlanks cs)
  let rest ← expect ':' (skipBlanks rest)
  let rest ← expect ':' rest
  return (weight, rest)

def readWeight? (cs : List Char) : Except Stop (Option Float × List Char) :=
  match readWeight cs with
  | .ok (weight, rest) => .ok (some weight, rest)
  | .error stop => if stop.committed then .error stop else .ok (none, cs)

def readArguments (cs : List Char) : List (List Char) × List Char :=
  let start := skipBlanks cs
  let argument := start.takeWhile isIdentChar
  match _h : skipBlanks (start.dropWhile isIdentChar) with
  | ',' :: rest =>
    let more := readArguments rest
    (argument :: more.1, more.2)
  | rest => ([argument], rest)
termination_by cs.length
decreasing_by
  have h1 := length_skipBlanks_le (start.dropWhile isIdentChar)
  have h2 := (List.dropWhile_sublist (l := start) isIdentChar).length_le
  have h3 : start.length ≤ cs.length := length_skipBlanks_le cs
  rw [_h] at h1
  simp only [List.length_cons] at h1
  omega

def readParts (cs : List Char) : Except Stop Parts := do
  let (weight?, rest) ← readWeight? cs
  let (name, rest) ← Line.name rest
  let rest ← expect '(' rest
  let (arguments, rest) := readArguments rest
  let rest ← expect ')' rest
  let rest ← expect '.' (skipBlanks rest)
  finish ⟨weight?, name, arguments⟩ (skipBlanks rest)

def parse (line : String) : Except LineError Fact :=
  let cs := trim line.toList
  let shown := String.ofList cs
  match readParts cs with
  | .error stop => .error (.malformedFact shown (offset cs stop.rest))
  | .ok parts =>
    match parts.arguments.findIdx? List.isEmpty with
    | some position => .error (.emptyArgument shown position)
    | none =>
      let weight := parts.weight?.getD 1.0
      if weight.isFinite then
        .ok ⟨weight, String.ofList parts.name, parts.arguments.map String.ofList⟩
      else .error (.invalidWeight shown (Decimal.write weight))

def parseAll (lines : List String) : Except LineError (List Fact) :=
  (lines.filter fun line => !(trim line.toList).isEmpty).mapM parse

end RuleInduction.Fact
