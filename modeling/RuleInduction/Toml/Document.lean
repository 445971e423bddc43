import RuleInduction.Toml.Scalar
import RuleInduction.Toml.Text

namespace RuleInduction.Toml

def items? (item : List Char → Option (Toml × List Char)) :
    Nat → List Char → Option (List Toml × List Char)
  | 0, _ => none
  | n + 1, cs =>
    match skipVoid false cs with
    | ']' :: rest => some ([], rest)
    | cs => do
      let (v, rest) ← item cs
      match skipVoid false rest with
      | ',' :: rest =>
        let (more, rest) ← items? item n rest
        return (v :: more, rest)
      | ']' :: rest => return ([v], rest)
      | _ => none

def pair? (item : List Char → Option (Toml × List Char)) (cs : List Char) :
    Option ((Key × Toml) × List Char) := do
  let (key, rest) ← key? cs
  let rest ← skip? '=' rest
  let (v, rest) ← item (skipWs rest)
  return ((key, v), rest)

def pairs? (item : List Char → Option (Toml × List Char)) :
    Nat → List Char → Option (List (Key × Toml) × List Char)
  | 0, _ => none
  | n + 1, cs => do
    let (p, rest) ← pair? item cs
    match skipWs rest with
    | ',' :: rest =>
      let (more, rest) ← pairs? item n rest
      return (p :: more, rest)
    | '}' :: rest => return ([p], rest)
    | _ => none

def Entries.putKey? (es : Entries) (p : Key × Toml) : Option Entries := do
  let last ← p.1.getLast?
  es.put? last p.2 p.1.dropLast

def value? : Nat → List Char → Option (Toml × List Char)
  | depth, cs =>
    match depth, cs with
    | 0, '[' :: _ => none
    | 0, '{' :: _ => none
    | d + 1, '[' :: rest => do
      let (items, rest) ← items? (value? d) rest.length rest
      return (.array items, rest)
    | d + 1, '{' :: rest =>
      match skipWs rest with
      | '}' :: rest => some (.table .braces [], rest)
      | _ => do
        let (ps, rest) ← pairs? (value? d) rest.length rest
        let es ← ps.foldlM Entries.putKey? []
        return (.table .braces es, rest)
    | _, '"' :: rest => (string? ('"' :: rest)).map fun (s, rest) => (.text (String.ofList s), rest)
    | _, '\'' :: rest =>
      (string? ('\'' :: rest)).map fun (s, rest) => (.text (String.ofList s), rest)
    | _, cs =>
      let (first, rest) := word cs
      (scalar? first).map fun v => (v, rest)

structure Progress where
  header : Key
  entries : Entries

def statement? (p : Progress) (cs : List Char) : Option (Progress × List Char) :=
  match cs with
  | '[' :: '[' :: rest => do
    let (key, rest) ← key? rest
    let last ← key.getLast?
    let rest ← endLine? (← skip? ']' (← skip? ']' rest))
    let entries ← p.entries.inTable? (Entries.openNext? last) key.dropLast
    return (⟨key, entries⟩, rest)
  | '[' :: rest => do
    let (key, rest) ← key? rest
    let last ← key.getLast?
    let rest ← endLine? (← skip? ']' rest)
    let entries ← p.entries.inTable? (Entries.openTable? last) key.dropLast
    return (⟨key, entries⟩, rest)
  | cs => do
    let (pair, rest) ← pair? (value? depthLimit) cs
    let rest ← endLine? rest
    let entries ← p.entries.inTable? (·.putKey? pair) p.header
    return (⟨p.header, entries⟩, rest)

def statements? : Nat → Progress → List Char → Option Entries
  | 0, p, cs => if (skipVoid false cs).isEmpty then some p.entries else none
  | n + 1, p, cs =>
    match skipVoid false cs with
    | [] => some p.entries
    | cs => do
      let (p, rest) ← statement? p cs
      statements? n p rest

def parse? (text : String) : Option Entries :=
  let cs := match text.toList with
    | '\uFEFF' :: cs => cs
    | cs => cs
  statements? cs.length ⟨[], []⟩ cs

end RuleInduction.Toml
