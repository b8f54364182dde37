import ChangeLens.Config.Store
import ChangeLens.Toml.Document

/-! Writing a table as a document: first its own entries, then the tables in it, level by level, each under its
header. Strings are written as messages show them, between double quotes; what they show by two digits in base
sixteen has no such escape here, and may read back as other text or not at all. -/
namespace ChangeLens.Toml

open Text Config

/-- Every two backslashes side by side become one. -/
def halved : List Char → List Char
  | '\\' :: '\\' :: cs => '\\' :: halved cs
  | c :: cs => c :: halved cs
  | [] => []

/-- What an `x` behind a text becomes: behind one backslash that begins the text, or an even number of them
after its first character, the beginning of an escape of four digits. -/
def numberMark (cs : List Char) : List Char :=
  let count := ((cs.drop 1).reverse.takeWhile (· == '\\')).length
  if cs.getLast? == some '\\' && count % 2 == 0 then ['u', '0', '0'] else ['x']

/-- Joins the pieces of a text that stood between `\x`, which shows a character by its number. An empty first
piece is dropped, and there must be two pieces then. -/
def joinNumbered : List Char → List (List Char) → Except Fault (List Char)
  | text, [] => .ok text
  | [], [] :: _ => .error .pastEnd
  | [], [_] => .error .pastEnd
  | [], next :: after :: rest => joinNumbered (halved next ++ numberMark (halved next) ++ after) rest
  | text, next :: rest => joinNumbered (halved text ++ numberMark (halved text) ++ next) rest

def shownText (shown : List Char) : Except Fault String := do
  let body := middle shown
  let body :=
    if shown.head? == some '\'' then replaced ['"'] ['\\', '"'] (replaced ['\\', '\''] ['\''] body) else body
  match pieces ['\\', 'x'] body with
  | [] => throw .pastEnd
  | first :: rest => return .ofList ('"' :: (← joinNumbered first rest) ++ ['"'])

def stringText (s : String) : Except Fault String := shownText (quoted s).toList

/-- Whether a key needs no quotes. One line end after it does not count. -/
def isBareKey (key : List Char) : Bool :=
  let name := if key.getLast? == some '\n' then key.dropLast else key
  !name.isEmpty && name.all isBareChar

def keyText (key : String) : Except Fault String := if isBareKey key.toList then .ok key else stringText key

/-- A whole number, which must not have more digits than are read. -/
def wholeText (n : Int) : Except Fault String :=
  if n.natAbs < Nat.pow 10 maxDigits then .ok (toString n) else .error .tooLong

def momentText (m : Moment) : Except Fault String := if m.isNear then .ok m.text else .error .farOffset

def decimalText (x : Decimal) : String :=
  .ofList (replaced "e-0".toList "e-".toList (replaced "e+0".toList "e+".toList x.text.toList))

mutual

/-- A value on one line. A table in an array that is no array of tables is written as its keys. -/
def valueText : Value → Except Fault String
  | .nothing => stringText "None"
  | .truth b => .ok (if b then "true" else "false")
  | .whole n => wholeText n
  | .decimal x => .ok (decimalText x)
  | .notANumber => .ok "nan"
  | .moment m => momentText m
  | .text s => stringText s
  | .unpaired ps => shownText (quotedPoints ps).toList
  | .list items => (itemsText items).map fun s => "[" ++ s ++ "]"
  | .table entries => do
    let keys ← (entries.map (·.1)).mapM stringText
    return "[" ++ String.join (keys.map fun key => " " ++ key ++ ",") ++ "]"

def itemsText : List Value → Except Fault String
  | [] => .ok ""
  | v :: vs => do return " " ++ (← valueText v) ++ "," ++ (← itemsText vs)

end

def isTable : Value → Bool
  | .table _ => true
  | _ => false

structure Body where
  plain : String := ""
  arrays : String := ""
  tables : Keyed Value := .empty

def Body.text (b : Body) : String := b.plain ++ b.arrays

structure Section where
  name : String
  text : String
  /-- Whether there are no tables in it. -/
  isLeaf : Bool

mutual

/-- The body of a table. `path` stands before the names in it. What stands in an array with tables, and is none
itself, must hold nothing. -/
def body : (fuel : Nat) → (path : String) → Value → Except Fault Body
  | fuel + 1, path, .table entries =>
    entries.foldlM (fun (b : Body) (key, v) => do
      let name ← keyText key
      match v with
      | .table _ => return { b with tables := b.tables.put name v }
      | .nothing => return b
      | .list items =>
        if items.any isTable then
          let parts ← items.mapM (arrayTable fuel (path ++ name))
          return { b with arrays := b.arrays ++ String.join parts }
        else return { b with plain := b.plain ++ name ++ " = " ++ (← valueText v) ++ "\n" }
      | v => return { b with plain := b.plain ++ name ++ " = " ++ (← valueText v) ++ "\n" }) {}
  | _, _, .text s => if s.isEmpty then .ok {} else .error .notATable
  | _, _, .list items => if items.isEmpty then .ok {} else .error .notATable
  | _, _, _ => .error .notATable

def arrayTable : (fuel : Nat) → (name : String) → Value → Except Fault String
  | 0, _, _ => .error .notATable
  | fuel + 1, name, v => do
    let b ← body fuel (name ++ ".") v
    let own := if startsWith "[" b.text then "\n" ++ b.text else b.text ++ "\n"
    let below ← sections fuel (name ++ ".") b.tables.entries
    let parts := (below.filter (!·.text.isEmpty)).map fun s => "[" ++ name ++ "." ++ s.name ++ "]\n" ++ s.text
    return "[[" ++ name ++ "]]\n" ++ own ++ String.join parts

def sections : (fuel : Nat) → (path : String) → List (String × Value) → Except Fault (List Section)
  | 0, _, _ => .ok []
  | fuel + 1, path, tables => do
    if tables.isEmpty then return []
    let level ← tables.mapM fun (name, v) => do
      let b ← body fuel (path ++ name ++ ".") v
      return ((⟨name, b.text, b.tables.entries.isEmpty⟩ : Section),
        b.tables.entries.map fun (below, v) => (name ++ "." ++ below, v))
    let next : Keyed Value := .ofList (level.flatMap (·.2))
    return level.map (·.1) ++ (← sections fuel path next.entries)

end

/-- A document with one more section behind a blank line. A table that holds tables only needs no header. -/
def addSection (document : String) (s : Section) : String :=
  if s.text.isEmpty && !s.isLeaf then document
  else
    let gap := document.isEmpty || document.toList.reverse.take 2 == ['\n', '\n']
    document ++ (if gap then "" else "\n") ++ "[" ++ s.name ++ "]\n" ++ s.text

def render (t : Table) : Except Fault String := do
  let fuel := 3 * (Value.table t).depth + 1
  let b ← body fuel "" (.table t)
  return (← sections fuel "" b.tables.entries).foldl addSection b.text

/-- The format with which the program is run. -/
def format : Format Fault where
  parse := parse
  render := render
  isMalformed := (· = .malformed)
  report? := Fault.report?

end ChangeLens.Toml
