namespace RuleInduction

inductive Toml.Origin where
  | header
  | implied
  | dotted
  | braces
  deriving DecidableEq, Repr

inductive Toml where
  | text (s : String)
  | integer (n : Int)
  | float (x : Float)
  | boolean (b : Bool)
  | moment
  | array (items : List Toml)
  | table (origin : Toml.Origin) (entries : List (String × Toml))
  | tables (items : List (List (String × Toml)))
  deriving Repr

namespace Toml

abbrev Entries := List (String × Toml)

abbrev Key := List String

namespace Entries

def get? (es : Entries) (k : String) : Option Toml :=
  (es.find? fun e => e.1 = k).map Prod.snd

def replace (es : Entries) (k : String) (v : Toml) : Entries :=
  es.map fun e => if e.1 = k then (k, v) else e

def add? (es : Entries) (k : String) (v : Toml) : Option Entries :=
  match es.get? k with
  | none => some (es ++ [(k, v)])
  | some _ => none

def inLast? (change : Entries → Option Entries) (items : List Entries) : Option (List Entries) := do
  let last ← items.getLast?
  return items.dropLast ++ [← change last]

def inTable? (change : Entries → Option Entries) : Key → Entries → Option Entries
  | [], es => change es
  | k :: ks, es =>
    match es.get? k with
    | none => do return es ++ [(k, .table .implied (← inTable? change ks []))]
    | some (.table .braces _) => none
    | some (.table origin sub) => do
      return es.replace k (.table origin (← inTable? change ks sub))
    | some (.tables items) => do
      return es.replace k (.tables (← inLast? (inTable? change ks) items))
    | some _ => none

/-- Opens the table of a header. It may have been implied but not be open already. -/
def openTable? (k : String) (es : Entries) : Option Entries :=
  match es.get? k with
  | none => some (es ++ [(k, .table .header [])])
  | some (.table .implied sub) => some (es.replace k (.table .header sub))
  | some _ => none

def openNext? (k : String) (es : Entries) : Option Entries :=
  match es.get? k with
  | none => some (es ++ [(k, .tables [[]])])
  | some (.tables items) => some (es.replace k (.tables (items ++ [[]])))
  | some _ => none

/-- May a dotted key pass through a table of this origin? Through the last one only if that has
come from a dotted key. -/
def passes (origin : Origin) (last : Bool) : Bool :=
  origin = .dotted || (origin = .implied && !last)

def put? (k : String) (v : Toml) : Key → Entries → Option Entries
  | [], es => es.add? k v
  | j :: js, es =>
    match es.get? j with
    | none => do return es ++ [(j, .table .dotted (← put? k v js []))]
    | some (.table origin sub) =>
      if passes origin js.isEmpty then do
        return es.replace j (.table origin (← put? k v js sub))
      else none
    | some (.tables items) =>
      if js.isEmpty then none
      else do return es.replace j (.tables (← inLast? (put? k v js) items))
    | some _ => none

end Entries

end Toml

end RuleInduction
