import ChangeLens.Text.Blank
import ChangeLens.Text.Letter
import ChangeLens.Text.Split

/-! Imports as a file states them: what is imported, and which of its names; and the names in the clause of an import
statement, read from its text. -/
namespace ChangeLens

structure Import where
  specifier : String
  symbols : List String := []
  deriving DecidableEq

namespace Import

open Text

/-- Whether a blank here begins ` as `. -/
def aliasFollows (cs : List Char) : Bool :=
  match after? ['a', 's'] (cs.dropWhile isBlank) with
  | some (c :: _) => isBlank c
  | _ => false

def beforeAlias : List Char → List Char
  | [] => []
  | c :: cs => if isBlank c && aliasFollows (c :: cs) then [] else c :: beforeAlias cs

def withoutType (cs : List Char) : List Char := ((after? "type ".toList cs).map trimChars).getD cs

/-- The source name in one item of a list, if it has one: what follows `#` is a comment, what follows ` as `
an alias, and a leading `type` marks a type. -/
def itemName? (item : List Char) : Option String :=
  let name := withoutType (trimChars (beforeAlias (trimChars (cutFirst '#' item).1)))
  if name.isEmpty then none else some (.ofList name)

def listNames (cs : List Char) : List String := (cs.splitOn ',').filterMap itemName?

def takeIdentifier? : List Char → Option (List Char × List Char)
  | c :: cs =>
    if isIdentifierStart c then some (c :: cs.takeWhile isIdentifierPart, cs.dropWhile isIdentifierPart)
    else none
  | [] => none

/-- What stands between the first pair of braces, and what stands outside of it. -/
def cutBraces? (cs : List Char) : Option (List Char × List Char) :=
  match cutFirst '{' cs with
  | (before, some inside) =>
    match cutFirst '}' inside with
    | (body, some after) => some (body, before ++ after)
    | (_, none) => none
  | (_, none) => none

/-- The name in first place, if a comma or nothing follows it. -/
def defaultName? (cs : List Char) : Option String :=
  match takeIdentifier? (cs.dropWhile isBlank) with
  | some (name, rest) =>
    match rest.dropWhile isBlank with
    | [] => some (.ofList name)
    | c :: _ => if c = ',' then some (.ofList name) else none
  | none => none

def starName? (cs : List Char) : Option String :=
  match after? ['a', 's'] (cs.dropWhile isBlank) with
  | some (c :: rest) =>
    if isBlank c then (takeIdentifier? (rest.dropWhile isBlank)).map fun (name, _) => .ofList name else none
  | _ => none

/-- The name that stands for everything, at the first star that has one. -/
def allName? : List Char → Option String
  | [] => none
  | c :: cs => if c = '*' then (starName? cs).or (allName? cs) else allName? cs

/-- The names of a clause: the default name, those in braces, and the name for all. -/
def clauseSymbols (clause : String) : List String :=
  let cs := trimChars clause.toList
  let cs := (after? "type ".toList cs).getD cs
  let (listed, rest) := match cutBraces? cs with
    | some (body, rest) => (listNames body, rest)
    | none => ([], cs)
  ((defaultName? rest).filter (· != "type")).toList ++ listed ++
    ((allName? rest).map ("* as " ++ ·)).toList

end Import
end ChangeLens
