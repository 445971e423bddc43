import RuleInduction.Toml

namespace RuleInduction.Toml

def isWs (c : Char) : Bool :=
  c = ' ' || c = '\t'

def skipWs (cs : List Char) : List Char :=
  cs.dropWhile isWs

def isPlain (c : Char) : Bool :=
  c = '\t' || (0x20 ≤ c.toNat && c.toNat ≠ 0x7F)

def skipVoid : Bool → List Char → List Char
  | _, [] => []
  | comment, c :: cs =>
    if comment && isPlain c then skipVoid true cs
    else if c = '\n' then skipVoid false cs
    else if c = '\r' && cs.head? = some '\n' then skipVoid false cs
    else if c = '#' then skipVoid true cs
    else if isWs c then skipVoid false cs
    else c :: cs

def endLine? (cs : List Char) : Option (List Char) :=
  let rest :=
    match skipWs cs with
    | '#' :: comment => comment.dropWhile isPlain
    | rest => rest
  match rest with
  | [] => some []
  | '\n' :: rest => some rest
  | '\r' :: '\n' :: rest => some rest
  | _ => none

def hexDigit? (c : Char) : Option Nat :=
  if c.isDigit then some (c.toNat - 0x30)
  else if 'a' ≤ c && c ≤ 'f' then some (c.toNat - 0x57)
  else if 'A' ≤ c && c ≤ 'F' then some (c.toNat - 0x37)
  else none

def charOfHex? (digits : List Char) : Option Char := do
  let values ← digits.mapM hexDigit?
  let n := values.foldl (fun n d => 16 * n + d) 0
  if n.isValidChar then some (Char.ofNat n) else none

def escape? (c : Char) : Option Char :=
  match c with
  | 'b' => some '\x08'
  | 't' => some '\t'
  | 'n' => some '\n'
  | 'f' => some '\x0c'
  | 'r' => some '\r'
  | '"' => some '"'
  | '\\' => some '\\'
  | _ => none

def prepend (c : Char) (r : Option (List Char × List Char)) : Option (List Char × List Char) :=
  r.map fun (s, rest) => (c :: s, rest)

def quoted? : List Char → Option (List Char × List Char)
  | '"' :: rest => some ([], rest)
  | '\\' :: 'u' :: a :: b :: c :: d :: cs =>
    (charOfHex? [a, b, c, d]).bind fun x => prepend x (quoted? cs)
  | '\\' :: 'U' :: a :: b :: c :: d :: e :: f :: g :: h :: cs =>
    (charOfHex? [a, b, c, d, e, f, g, h]).bind fun x => prepend x (quoted? cs)
  | '\\' :: c :: cs => (escape? c).bind fun x => prepend x (quoted? cs)
  | c :: cs => if isPlain c then prepend c (quoted? cs) else none
  | [] => none

def literal? : List Char → Option (List Char × List Char)
  | '\'' :: rest => some ([], rest)
  | c :: cs => if isPlain c then prepend c (literal? cs) else none
  | [] => none

def skipLineEnd : List Char → List Char
  | '\n' :: cs => cs
  | '\r' :: '\n' :: cs => cs
  | cs => cs

def atLineEnd (cs : List Char) : Bool :=
  match skipWs cs with
  | '\n' :: _ => true
  | '\r' :: '\n' :: _ => true
  | _ => false

/-- The rest of a string in three double quotes. A backslash at the end of a line drops all blanks
and line ends up to the next character; `dropping` says that this is going on. Up to two quotes may
stand before the closing ones. -/
def longQuoted? : Bool → List Char → Option (List Char × List Char)
  | _, '"' :: '"' :: '"' :: '"' :: '"' :: rest => some (['"', '"'], rest)
  | _, '"' :: '"' :: '"' :: '"' :: rest => some (['"'], rest)
  | _, '"' :: '"' :: '"' :: rest => some ([], rest)
  | _, '\\' :: 'u' :: a :: b :: c :: d :: cs =>
    (charOfHex? [a, b, c, d]).bind fun x => prepend x (longQuoted? false cs)
  | _, '\\' :: 'U' :: a :: b :: c :: d :: e :: f :: g :: h :: cs =>
    (charOfHex? [a, b, c, d, e, f, g, h]).bind fun x => prepend x (longQuoted? false cs)
  | dropping, '\r' :: '\n' :: cs =>
    if dropping then longQuoted? true cs else prepend '\n' (longQuoted? false cs)
  | _, '\\' :: c :: cs =>
    if atLineEnd (c :: cs) then longQuoted? true (c :: cs)
    else (escape? c).bind fun x => prepend x (longQuoted? false cs)
  | dropping, c :: cs =>
    if dropping && (isWs c || c = '\n') then longQuoted? true cs
    else if isPlain c || c = '\n' then prepend c (longQuoted? false cs)
    else none
  | _, [] => none

def longLiteral? : List Char → Option (List Char × List Char)
  | '\'' :: '\'' :: '\'' :: '\'' :: '\'' :: rest => some (['\'', '\''], rest)
  | '\'' :: '\'' :: '\'' :: '\'' :: rest => some (['\''], rest)
  | '\'' :: '\'' :: '\'' :: rest => some ([], rest)
  | '\r' :: '\n' :: cs => prepend '\n' (longLiteral? cs)
  | c :: cs => if isPlain c || c = '\n' then prepend c (longLiteral? cs) else none
  | [] => none

def string? : List Char → Option (List Char × List Char)
  | '"' :: '"' :: '"' :: cs => longQuoted? false (skipLineEnd cs)
  | '"' :: cs => quoted? cs
  | '\'' :: '\'' :: '\'' :: cs => longLiteral? (skipLineEnd cs)
  | '\'' :: cs => literal? cs
  | _ => none

def isBareKeyChar (c : Char) : Bool :=
  c.isAlphanum || c = '-' || c = '_'

def keyPart? : List Char → Option (List Char × List Char)
  | '"' :: cs => quoted? cs
  | '\'' :: cs => literal? cs
  | cs =>
    match cs.takeWhile isBareKeyChar with
    | [] => none
    | c :: part => some (c :: part, cs.dropWhile isBareKeyChar)

def keyWithin? : Nat → List Char → Option (Key × List Char)
  | 0, _ => none
  | n + 1, cs => do
    let (part, rest) ← keyPart? (skipWs cs)
    match skipWs rest with
    | '.' :: rest =>
      let (more, rest) ← keyWithin? n rest
      return (String.ofList part :: more, rest)
    | rest => return ([String.ofList part], rest)

/-- How many parts a key may have, and how deep values may be nested. -/
def depthLimit : Nat := 79

def key? (cs : List Char) : Option (Key × List Char) := do
  let (key, rest) ← keyWithin? cs.length cs
  if key.length ≤ depthLimit then some (key, rest) else none

end RuleInduction.Toml
