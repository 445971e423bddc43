import RuleInduction.Settings
import RuleInduction.Toml.Document
import RuleInduction.Folder

namespace RuleInduction

namespace Settings

def greatestInteger : Nat := Nat.pow 2 63 - 1

def countOf? : Toml → Option Nat
  | .integer n => if 0 ≤ n then some n.toNat else none
  | _ => none

def floatOf? : Toml → Option Float
  | .integer n => some (Float.ofInt n)
  | .float x => some x
  | _ => none

def flagOf? : Toml → Option Bool
  | .boolean b => some b
  | _ => none

def limitOf? (v : Toml) : Option Limit :=
  match countOf? v with
  | some n => some (.count n)
  | none => (floatOf? v).map .fraction

def isEmptyValue : Toml → Bool
  | .array items => items.isEmpty
  | .table _ entries => entries.isEmpty
  | .tables items => items.isEmpty
  | _ => false

/-- A name is a string, or the one key of a table with nothing under it. -/
def nameOf? : Toml → Option String
  | .text s => some s
  | .table _ [(k, v)] => if isEmptyValue v then some k else none
  | _ => none

def field {α : Type} (es : Toml.Entries) (key : String) (default : α) (read? : Toml → Option α) :
    Option α :=
  match es.get? key with
  | none => some default
  | some v => read? v

def ofEntries? (es : Toml.Entries) : Option Settings := do
  let d : Settings := {}
  return {
    criterion := ← field es "criterion" d.criterion
      fun v => ((nameOf? v).bind Criterion.ofName?).map some
    strategy := ← field es "strategy" d.strategy fun v => (nameOf? v).bind Strategy.ofName?
    maxLiterals := ← field es "max_literals" d.maxLiterals fun v => (countOf? v).map some
    maxPredicates := ← field es "max_predicates" d.maxPredicates fun v => (limitOf? v).map some
    minExamples := ← field es "min_examples_learn" d.minExamples limitOf?
    clauses := ← field es "n_clauses" d.clauses countOf?
    sampleRatio := ← field es "sample_ratio" d.sampleRatio floatOf?
    recursive := ← field es "allow_recursion" d.recursive flagOf?
    seed := ← field es "seed" d.seed fun v => (countOf? v).map (some ∘ UInt64.ofNat) }

def parseAs (path text : String) : Except SetupError Settings :=
  match Toml.parse? text with
  | none => .error (.unparsable path "not a TOML document")
  | some es =>
    match ofEntries? es with
    | none => .error (.unparsable path "a setting has a value of the wrong kind")
    | some s => .ok s

def parse (text : String) : Except SetupError Settings :=
  parseAs "<string>" text

def writeFloat (x : Float) : String :=
  let text := Decimal.write x
  if x.isNaN then "nan"
  else if x.isFinite && !text.toList.contains '.' then text ++ ".0"
  else text

def writeCount? (n : Nat) : Option String :=
  if n ≤ greatestInteger then some (Nat.repr n) else none

def writeLimit? : Limit → Option String
  | .count n => writeCount? n
  | .fraction x => some (writeFloat x)

def writeName (name : String) : String :=
  "\"" ++ name ++ "\""

def line (key value : String) : String :=
  key ++ " = " ++ value ++ "\n"

def lineOf? {α : Type} (key : String) (write? : α → Option String) : Option α → Option String
  | none => some ""
  | some v => (write? v).map (line key)

def write? (s : Settings) : Option String := do
  let lines := [
    ← lineOf? "criterion" (fun c : Criterion => some (writeName c.name)) s.criterion,
    line "strategy" (writeName s.strategy.name),
    ← lineOf? "max_literals" writeCount? s.maxLiterals,
    ← lineOf? "max_predicates" writeLimit? s.maxPredicates,
    line "min_examples_learn" (← writeLimit? s.minExamples),
    line "n_clauses" (← writeCount? s.clauses),
    line "sample_ratio" (writeFloat s.sampleRatio),
    line "allow_recursion" (if s.recursive then "true" else "false"),
    ← lineOf? "seed" (fun n : UInt64 => writeCount? n.toNat) s.seed]
  return String.join lines

def load (f : Folder) (path : String) : Except SetupError Settings :=
  match f.read? path with
  | none => .error (.unreadable path "no such file")
  | some text => parseAs path text

def makeParent (f : Folder) (path : String) : Except SetupError Unit × Folder :=
  match Folder.parent? path with
  | none => (.ok (), f)
  | some parent =>
    match f.makeFolders parent with
    | (true, f) => (.ok (), f)
    | (false, f) => (.error (.unwritable parent "not a folder"), f)

def writeFile (f : Folder) (path text : String) : Except SetupError Unit × Folder :=
  match f.write? path text with
  | some f => (.ok (), f)
  | none => (.error (.unwritable path "not a file in a folder"), f)

/-- Writes settings to a file, and makes the folders on its path. Settings that no document can hold
change nothing; after another failure the folders that were made are there. -/
def save (s : Settings) (f : Folder) (path : String) : Except SetupError Unit × Folder :=
  match s.write? with
  | none => (.error (.unparsable path "a number is too large"), f)
  | some text =>
    match makeParent f path with
    | (.ok (), f) => writeFile f path text
    | (.error e, f) => (.error e, f)

end Settings

end RuleInduction
