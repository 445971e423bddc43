import RuleInduction.Line

namespace RuleInduction.Numeral

def digits (cs : List Char) : List Char × List Char :=
  (cs.takeWhile Char.isDigit, cs.dropWhile Char.isDigit)

def sign : List Char → Bool × List Char
  | '-' :: rest => (true, rest)
  | '+' :: rest => (false, rest)
  | cs => (false, cs)

def ofParts (whole fraction : List Char) (exponent : Int) : Decimal :=
  ⟨Nat.ofDigitChars 10 (whole ++ fraction) 0, exponent - fraction.length⟩

def signed (negative : Bool) (n : Nat) : Int :=
  if negative then -n else n

def mantissa? (cs : List Char) : Option ((List Char × List Char) × List Char) :=
  match digits cs with
  | ([], '.' :: rest) =>
    match digits rest with
    | ([], _) => none
    | (fraction, rest) => some (([], fraction), rest)
  | ([], _) => none
  | (whole, '.' :: rest) => some ((whole, (digits rest).1), (digits rest).2)
  | (whole, rest) => some ((whole, []), rest)

def exponent? (cs : List Char) : Option (Int × List Char) :=
  let read (cs : List Char) : Option (Int × List Char) :=
    let (negative, rest) := sign cs
    match digits rest with
    | ([], _) => none
    | (ds, rest) => some (signed negative (Nat.ofDigitChars 10 ds 0), rest)
  match cs with
  | 'e' :: rest => read rest
  | 'E' :: rest => read rest
  | cs => some (0, cs)

def startsWithWord (word cs : List Char) : Bool :=
  (cs.take word.length).map Char.toLower = word

/-- A numeral at the start. Where an exponent is opened and not finished reading stops for good,
and what does not begin like a number may still be a word. -/
def read (cs : List Char) : Except Stop (Float × List Char) :=
  let (negative, body) := sign cs
  match mantissa? body with
  | some ((whole, fraction), rest) =>
    match exponent? rest with
    | some (exponent, rest) => .ok ((ofParts whole fraction exponent).toFloat negative, rest)
    | none => .error ⟨cs, true⟩
  | none =>
    if startsWithWord ['n', 'a', 'n'] cs then .ok (0.0 / 0.0, cs.drop 3)
    else if startsWithWord ['i', 'n', 'f'] cs then .ok (1.0 / 0.0, cs.drop 3)
    else Line.stopAt cs

end RuleInduction.Numeral
