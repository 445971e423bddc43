import RuleInduction.Mode
import RuleInduction.Line
import RuleInduction.Error

namespace RuleInduction.Mode

open Text Line

def readSlot (cs : List Char) : Except Stop ((Char × List Char) × List Char) :=
  match skipBlanks cs with
  | [] => stopAt []
  | symbol :: rest =>
    match rest.takeWhile isIdentChar with
    | [] => stopAt rest
    | c :: type => .ok ((symbol, c :: type), skipBlanks (rest.dropWhile isIdentChar))

theorem length_lt_of_readSlot {cs rest : List Char} {slot : Char × List Char}
    (h : readSlot cs = .ok (slot, rest)) : rest.length < cs.length := by
  have h1 := length_skipBlanks_le cs
  simp only [readSlot] at h
  split at h
  · cases h
  · next symbol tail hs =>
      split at h
      · cases h
      · cases h
        have h2 := length_skipBlanks_le (tail.dropWhile isIdentChar)
        have h3 := (List.dropWhile_sublist (l := tail) isIdentChar).length_le
        rw [hs] at h1
        simp only [List.length_cons] at h1
        omega

/-- Before a comma that no slot follows the list ends. -/
def readMoreSlots (cs : List Char) : List (Char × List Char) × List Char :=
  match cs with
  | ',' :: after =>
    match _h : readSlot after with
    | .ok (slot, rest) =>
      let more := readMoreSlots rest
      (slot :: more.1, more.2)
    | .error _ => ([], ',' :: after)
  | rest => ([], rest)
termination_by cs.length
decreasing_by
  have := length_lt_of_readSlot _h
  simp only [List.length_cons]
  omega

def skipFullStop (cs : List Char) : List Char :=
  match expect '.' (skipBlanks cs) with
  | .ok rest => skipBlanks rest
  | .error _ => cs

def readParts (cs : List Char) : Except Stop (List Char × List (Char × List Char)) := do
  let (name, rest) ← Line.name cs
  let rest ← expect '(' rest
  let (slot, rest) ← readSlot rest
  let (slots, rest) := readMoreSlots rest
  let rest ← expect ')' rest
  finish (name, slot :: slots) (skipFullStop rest)

def ofParts? (line : String) (slot : Char × List Char) : Except LineError Slot :=
  match ModeSymbol.ofChar? slot.1 with
  | some symbol => .ok ⟨symbol, String.ofList slot.2⟩
  | none => .error (.unknownSymbol line slot.1)

def parse (line : String) : Except LineError Mode :=
  let cs := trim line.toList
  let shown := String.ofList cs
  match readParts cs with
  | .error stop => .error (.malformedMode shown (offset cs stop.rest))
  | .ok (name, slots) => do
    let slots ← slots.mapM (ofParts? shown)
    return ⟨String.ofList name, slots⟩

def parseAll (lines : List String) : Except LineError (List Mode) :=
  (lines.filter fun line => !(trim line.toList).isEmpty).mapM parse

end RuleInduction.Mode
