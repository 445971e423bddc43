import Std.Data.ExtTreeMap

namespace RuleInduction

inductive FolderEntry where
  | file (text : String)
  | folder
  deriving DecidableEq, Repr

/-- The names on the way to an entry. Two dots at the start lead up from the folder, and a slash at
the start leads to the root. -/
abbrev Way := List String

/-- All entries by the ways to them. The folder itself and those above it are not listed. -/
structure Folder where
  entries : Std.ExtTreeMap Way FolderEntry

namespace Folder

def empty : Folder := ⟨∅⟩

def isAbove (way : Way) : Bool :=
  way.all fun name => name = ".." || name = "/"

def get? (f : Folder) (way : Way) : Option FolderEntry :=
  if isAbove way then some .folder else f.entries[way]?

def set (f : Folder) (way : Way) (e : FolderEntry) : Folder :=
  ⟨f.entries.insert way e⟩

def splitPath : List Char → List (List Char)
  | [] => [[]]
  | '/' :: cs => [] :: splitPath cs
  | c :: cs =>
    match splitPath cs with
    | [] => [[c]]
    | name :: names => (c :: name) :: names

def names (path : String) : List String :=
  (splitPath path.toList).map String.ofList

def start (path : String) : Way :=
  if path.toList.head? = some '/' then ["/"] else []

def nameLimit : Nat := 255

def pathLimit : Nat := 4095

def isPath (path : String) : Bool :=
  path ≠ "" && path.utf8ByteSize ≤ pathLimit && !path.toList.contains '\x00'

def up (way : Way) : Way :=
  match way.getLast? with
  | none => [".."]
  | some name =>
    if name = ".." then way ++ [".."]
    else if name = "/" then way
    else way.dropLast

def step? (f : Folder) (way : Way) (name : String) : Option Way :=
  if f.get? way ≠ some .folder then none
  else if name = "" || name = "." then some way
  else if name = ".." then some (up way)
  else if name.utf8ByteSize ≤ nameLimit then some (way ++ [name])
  else none

def follow? (f : Folder) (path : String) : Option Way :=
  if isPath path then (names path).foldlM f.step? (start path) else none

def read? (f : Folder) (path : String) : Option String := do
  match f.get? (← f.follow? path) with
  | some (.file text) => some text
  | _ => none

def write? (f : Folder) (path text : String) : Option Folder := do
  let way ← f.follow? path
  let last ← (names path).getLast?
  if last = "" || last = "." || last = ".." then none
  else
    match f.get? way with
    | some .folder => none
    | _ => some (f.set way (.file text))

def makeAlong (f : Folder) (way : Way) : List String → Bool × Folder
  | [] => (true, f)
  | name :: names =>
    match f.step? way name with
    | none => (false, f)
    | some way =>
      match f.get? way with
      | some .folder => makeAlong f way names
      | some (.file _) => (false, f)
      | none => makeAlong (f.set way .folder) way names

def makeFolders (f : Folder) (path : String) : Bool × Folder :=
  if path = "" then (true, f)
  else if isPath path then f.makeAlong (start path) (names path)
  else (false, f)

/-- Drops slashes at the end, and dots between them. The first name stays. -/
def trimEnd : List String → List String
  | [] => []
  | name :: rest => name :: (rest.reverse.dropWhile fun n => n = "" || n = ".").reverse

def parent? (path : String) : Option String :=
  if path = "" then none
  else
    match trimEnd (names path) with
    | [] => none
    | [_] => some ""
    | way => some ("/".intercalate (trimEnd way.dropLast))

end Folder

end RuleInduction
