import RuleInduction.Decimal.Numeral
import RuleInduction.Toml

namespace RuleInduction.Toml

def isWordChar (c : Char) : Bool :=
  c.isAlphanum || c = '+' || c = '-' || c = '_' || c = '.' || c = ':'

def grouped? (isDigit : Char → Bool) : List Char → Option (List Char)
  | [] => none
  | [c] => if isDigit c then some [c] else none
  | c :: '_' :: cs => if isDigit c then (grouped? isDigit cs).map (c :: ·) else none
  | c :: cs => if isDigit c then (grouped? isDigit cs).map (c :: ·) else none

def wholeDigits? (cs : List Char) : Option (List Char) :=
  match grouped? Char.isDigit cs with
  | some ['0'] => if cs = ['0'] then some ['0'] else none
  | some ('0' :: _) => none
  | other => other

def inRange (n : Int) : Bool :=
  -0x8000000000000000 ≤ n && n < 0x8000000000000000

def ofRadix? (radix : Nat) (isDigit : Char → Bool) (cs : List Char) : Option Int := do
  let digits ← grouped? isDigit cs
  let value (c : Char) : Nat :=
    if c.isDigit then c.toNat - 0x30 else c.toLower.toNat - 0x57
  return digits.foldl (fun n c => radix * n + value c) (0 : Nat)

def isHexDigit (c : Char) : Bool :=
  c.isDigit || ('a' ≤ c && c ≤ 'f') || ('A' ≤ c && c ≤ 'F')

def integer? (cs : List Char) : Option Int := do
  let n ← match cs with
    | '0' :: 'x' :: digits => ofRadix? 16 isHexDigit digits
    | '0' :: 'o' :: digits => ofRadix? 8 (fun c => '0' ≤ c && c ≤ '7') digits
    | '0' :: 'b' :: digits => ofRadix? 2 (fun c => c = '0' || c = '1') digits
    | cs =>
      let (negative, digits) := Numeral.sign cs
      (wholeDigits? digits).map fun ds => Numeral.signed negative (Nat.ofDigitChars 10 ds 0)
  if inRange n then some n else none

def tail? (cs : List Char) : Option (List Char × Int) := do
  let (fraction, rest) ← match cs with
    | '.' :: cs =>
      let digits := cs.takeWhile fun c => c.isDigit || c = '_'
      (grouped? Char.isDigit digits).map fun ds => (ds, cs.drop digits.length)
    | cs => if cs.isEmpty then none else some ([], cs)
  match rest with
  | [] => return (fraction, 0)
  | c :: rest =>
    if c = 'e' || c = 'E' then
      let (negative, digits) := Numeral.sign rest
      let ds ← grouped? Char.isDigit digits
      return (fraction, Numeral.signed negative (Nat.ofDigitChars 10 ds 0))
    else none

/-- A float. Digits that are too large for a finite float are refused, unless they are negative. -/
def float? (cs : List Char) : Option Float :=
  let (negative, body) := Numeral.sign cs
  if body = ['i', 'n', 'f'] then some (Binary64.toFloat negative Binary64.infinityBits)
  else if body = ['n', 'a', 'n'] then some (0.0 / 0.0)
  else do
    let digits := body.takeWhile fun c => c.isDigit || c = '_'
    let whole ← wholeDigits? digits
    let (fraction, exponent) ← tail? (body.drop digits.length)
    let d := Numeral.ofParts whole fraction exponent
    if d.bits = Binary64.infinityBits && !negative then none else some (d.toFloat negative)

def fixed? (places : Nat) (cs : List Char) : Option (Nat × List Char) :=
  let digits := cs.take places
  if digits.length = places && digits.all Char.isDigit then
    some (Nat.ofDigitChars 10 digits 0, cs.drop places)
  else none

def skip? (c : Char) : List Char → Option (List Char)
  | d :: cs => if d = c then some cs else none
  | [] => none

def isLeapYear (year : Nat) : Bool :=
  year % 4 = 0 && (year % 100 ≠ 0 || year % 400 = 0)

def daysInMonth (year month : Nat) : Nat :=
  if month = 2 then if isLeapYear year then 29 else 28
  else if month = 4 || month = 6 || month = 9 || month = 11 then 30
  else 31

def date? (cs : List Char) : Option (List Char) := do
  let (year, cs) ← fixed? 4 cs
  let (month, cs) ← fixed? 2 (← skip? '-' cs)
  let (day, cs) ← fixed? 2 (← skip? '-' cs)
  if 1 ≤ month && month ≤ 12 && 1 ≤ day && day ≤ daysInMonth year month then some cs else none

def time? (cs : List Char) : Option (List Char) := do
  let (hour, cs) ← fixed? 2 cs
  let (minute, cs) ← fixed? 2 (← skip? ':' cs)
  let (second, cs) ← fixed? 2 (← skip? ':' cs)
  if hour ≤ 23 && minute ≤ 59 && second ≤ 60 then
    match cs with
    | '.' :: cs =>
      match Numeral.digits cs with
      | ([], _) => none
      | (_, rest) => some rest
    | cs => some cs
  else none

def zone? (cs : List Char) : Option (List Char) :=
  match cs with
  | 'Z' :: rest => some rest
  | 'z' :: rest => some rest
  | c :: rest =>
    if c = '+' || c = '-' then do
      let (hour, cs) ← fixed? 2 rest
      let (minute, cs) ← fixed? 2 (← skip? ':' cs)
      if hour ≤ 23 && minute ≤ 59 then some cs else none
    else some cs
  | [] => some []

/-- A date, a time, or a date and a time with a letter or a blank between them. -/
def isMoment (cs : List Char) : Bool :=
  match date? cs with
  | some [] => true
  | some (c :: rest) =>
    (c = 'T' || c = 't' || c = ' ') && (time? rest).bind zone? == some []
  | none => time? cs == some []

def word (cs : List Char) : List Char × List Char :=
  let first := cs.takeWhile isWordChar
  let rest := cs.dropWhile isWordChar
  match rest with
  | ' ' :: c :: more =>
    if date? first == some [] && c.isDigit then
      (first ++ ' ' :: (c :: more).takeWhile isWordChar, (c :: more).dropWhile isWordChar)
    else (first, rest)
  | _ => (first, rest)

def scalar? (cs : List Char) : Option Toml :=
  if cs = ['t', 'r', 'u', 'e'] then some (.boolean true)
  else if cs = ['f', 'a', 'l', 's', 'e'] then some (.boolean false)
  else if isMoment cs then some .moment
  else
    match integer? cs with
    | some n => some (.integer n)
    | none => (float? cs).map .float

end RuleInduction.Toml
