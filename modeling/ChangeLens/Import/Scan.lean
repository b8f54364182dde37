import ChangeLens.Import.Clause
import ChangeLens.Language.Registry

/-! Imports found by scanning a text, without parsing it. That is fast enough for all files of a repository.
Each form of import is a pattern that is tried at every place; what all patterns find is merged by place. -/
namespace ChangeLens.Import

open Text

/-- What a pattern finds at a place, given the character before it: a value, and what follows the text that
it takes. -/
abbrev Scanner (α : Type) := (before : Option Char) → List Char → Option (α × List Char)

/-- All finds of a pattern with the places where they begin, from left to right. The search goes on behind
each find. -/
def scan (s : Scanner α) (place : Nat) (before : Option Char) (cs : List Char) : List (Nat × α) :=
  match cs with
  | [] => []
  | c :: rest =>
    match s before (c :: rest) with
    | some (found, after) =>
      if after.length ≤ rest.length then
        let taken := (c :: rest).length - after.length
        (place, found) :: scan s (place + taken) ((c :: rest)[taken - 1]?) after
      else scan s (place + 1) (some c) rest
    | none => scan s (place + 1) (some c) rest
termination_by cs.length

def findAll (s : Scanner α) (text : String) : List (Nat × α) := scan s 0 none text.toList

def atLineStart (before : Option Char) : Bool := before.all (· == '\n')

def atWordStart (before : Option Char) : Bool := before.all (!isWordChar ·)

def afterAny? (words : List String) (cs : List Char) : Option (List Char) :=
  words.findSome? fun w => after? w.toList cs

/-- A text between quotes on one line, and what follows it. The two quotes may differ. -/
def quotedSpecifier? : List Char → Option (List Char × List Char)
  | q :: cs =>
    let inner := fun c => c != '\'' && c != '"' && c != '\n'
    if q = '\'' ∨ q = '"' then
      match cs.takeWhile inner, cs.dropWhile inner with
      | specifier@(_ :: _), c :: rest => if c = '\n' then none else some (specifier, rest)
      | _, _ => none
    else none
  | [] => none

/-- The end of a statement that imports from a file: blanks, `from`, and the file. -/
def fromSpecifier? (before : Option Char) (cs : List Char) : Option (List Char × List Char) :=
  let separated := cs.head?.any isBlank || atWordStart before
  if separated then
    (after? "from".toList (cs.dropWhile isBlank)).bind fun rest => quotedSpecifier? (rest.dropWhile isBlank)
  else none

/-- The shortest clause before `from`, the file, and what follows it. A clause holds no quote and no
semicolon. -/
def clauseThenFrom? (before : Option Char) (cs : List Char) :
    Option (List Char × List Char × List Char) :=
  match fromSpecifier? before cs with
  | some (specifier, rest) => some ([], specifier, rest)
  | none =>
    match cs with
    | [] => none
    | c :: rest =>
      if c = '\'' ∨ c = '"' ∨ c = ';' then none
      else (clauseThenFrom? (some c) rest).map fun (clause, found) => (c :: clause, found)

/-- What follows the blanks after `import` or `export`. A bracket may not follow, or else it is a call; with
two blanks or more the last one is given to the clause, and the bracket passes. -/
def clauseStart? (cs : List Char) : Option (List Char) :=
  let blanks := cs.takeWhile isBlank
  let rest := cs.dropWhile isBlank
  match blanks with
  | [] => none
  | [_] => if rest.head? = some '(' then none else some rest
  | _ => if rest.head? = some '(' then some (blanks.drop (blanks.length - 1) ++ rest) else some rest

/-- Imports and exports with a clause, as `import a, { b } from "./c"`. -/
def fromStatement : Scanner Import := fun before cs =>
  if atWordStart before then
    (((afterAny? ["import", "export"] cs).bind clauseStart?).bind (clauseThenFrom? (some ' '))).map
      fun (clause, specifier, rest) => (⟨.ofList specifier, clauseSymbols (.ofList clause)⟩, rest)
  else none

/-- Imports for their effects alone, as `import "./a"`. -/
def bareStatement : Scanner Import := fun before cs =>
  if atLineStart before then
    ((after? "import".toList (cs.dropWhile isIndent)).bind fun rest =>
      quotedSpecifier? (rest.dropWhile isBlank)).map fun (specifier, rest) => (⟨.ofList specifier, []⟩, rest)
  else none

/-- Calls that load a file, as `require("./a")`. -/
def loadCall : Scanner Import := fun before cs => do
  guard (atWordStart before)
  let rest ← afterAny? ["require", "import"] cs
  let rest ← after? ['('] (rest.dropWhile isBlank)
  let (specifier, rest) ← quotedSpecifier? (rest.dropWhile isBlank)
  let rest ← after? [')'] (rest.dropWhile isBlank)
  return (⟨.ofList specifier, []⟩, rest)

def skipIndent? (cs : List Char) : Option (List Char) :=
  if cs.head?.any isIndent then some (cs.dropWhile isIndent) else none

/-- The names after `import`: a list in brackets, which may go over several lines, or the rest of the line.
If the line ends at once, one of several blanks counts as its rest. -/
def importedNames? (cs : List Char) : Option (List Char × List Char) :=
  let rest := cs.dropWhile isIndent
  let line := rest.takeWhile (· != '\n')
  match rest, cutFirst ')' rest with
  | '(' :: _, (list, some after) => some (list ++ [')'], after)
  | _, _ =>
    if !line.isEmpty then some (line, rest.dropWhile (· != '\n'))
    else if 2 ≤ (cs.takeWhile isIndent).length then some ([' '], rest)
    else none

/-- The names of a list without the brackets around it. An opening bracket that is never closed takes the
last character of the line with it. -/
def namesIn (cs : List Char) : List String :=
  let cs := trimChars cs
  listNames (if cs.head? = some '(' then (cs.drop 1).dropLast else cs)

/-- Imports of names from a module, as `from a.b import c, d`. -/
def fromImport : Scanner (List Import) := fun before cs => do
  guard (atLineStart before)
  let rest ← after? "from".toList (cs.dropWhile isIndent)
  let rest ← skipIndent? rest
  let inModule := fun c => isWordChar c || c == '.'
  let source := rest.takeWhile inModule
  guard (!source.isEmpty)
  let rest ← skipIndent? (rest.dropWhile inModule)
  let rest ← after? "import".toList rest
  guard (rest.head?.any isIndent)
  let (names, rest) ← importedNames? rest
  return ([⟨.ofList source, namesIn names⟩], rest)

/-- Imports of whole modules, as `import a.b, c`. -/
def moduleImport : Scanner (List Import) := fun before cs => do
  guard (atLineStart before)
  let rest ← after? "import".toList (cs.dropWhile isIndent)
  let rest ← skipIndent? rest
  let inList := fun c => c != '\n' && c != '#' && c != ';'
  guard (rest.head?.any inList)
  return ((listNames (rest.takeWhile inList)).map fun source => ⟨source, []⟩, rest.dropWhile inList)

/-- A path that is given without a directory is meant from where the file stands. -/
def besideFile (specifier : List Char) : String :=
  .ofList (if specifier.head? = some '.' then specifier else '.' :: '/' :: specifier)

/-- Loads of another file, as `require "a"` and `require_relative "a"`. -/
def requireLine : Scanner Import := fun before cs => do
  guard (atLineStart before)
  let cs := cs.dropWhile isIndent
  let beside := (after? "require_relative".toList cs).isSome
  let rest ← afterAny? ["require_relative", "require"] cs
  let (specifier, rest) ← quotedSpecifier? (rest.dropWhile fun c => isIndent c || c == '(')
  return (⟨if beside then besideFile specifier else .ofList specifier, []⟩, rest)

def includeLine : Scanner Import := fun before cs => do
  guard (atLineStart before)
  let rest ← after? ['#'] (cs.dropWhile isIndent)
  let rest ← after? "include".toList (rest.dropWhile isIndent)
  let rest ← after? ['"'] (rest.dropWhile isIndent)
  let inName := fun c => c != '"' && c != '\n'
  let specifier := rest.takeWhile inName
  guard (!specifier.isEmpty)
  let rest ← after? ['"'] (rest.dropWhile inName)
  return (⟨besideFile specifier, []⟩, rest)

/-- Finds in the order of their places; of two at one place the first in the list stays first. -/
def inOrder (found : List (Nat × α)) : List α :=
  (found.mergeSort fun a b => a.1 ≤ b.1).map (·.2)

/-- The imports of a text, in a family of languages. Families without a pattern here import nothing. -/
def ofText (family source : String) : List Import :=
  if family == "ecmascript" then
    inOrder (findAll fromStatement source ++ findAll bareStatement source ++ findAll loadCall source)
  else if family == "python" then
    (inOrder (findAll fromImport source ++ findAll moduleImport source)).flatten
  else if family == "ruby" then inOrder (findAll requireLine source)
  else if family == "c" then inOrder (findAll includeLine source)
  else []

def scannedFamilies : List String := ["ecmascript", "python", "ruby", "c"]

def parsedFamilies : List String := ["ecmascript", "python"]

end ChangeLens.Import
