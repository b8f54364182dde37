import ChangeLens.Keyed
import ChangeLens.Toml.Items
import ChangeLens.Toml.Moment
import ChangeLens.Toml.Number
import ChangeLens.Toml.Quoted

/-! Entries: a key, an equals sign and a value. A key with dots names a table inside the one at hand, which is
made if it is missing. -/
namespace ChangeLens.Toml

open Text Config

structure Pending where
  key : String
  text : List Char
  /-- Whether the next line goes on without a line end, since a backslash stood before it. -/
  joined : Bool

namespace Pending

/-- Takes what is read so far: a backslash that ends it goes, and otherwise a line end is put there. -/
def ofText (key : String) (cs : List Char) : Pending :=
  if endsEscaped cs then ⟨key, cs.dropLast, true⟩ else ⟨key, cs ++ ['\n'], false⟩

end Pending

/-- Whether a text can be taken for a value where it is cut off, so that the key before it is whole. -/
def canBegin (cs : List Char) : Except Fault Bool :=
  match cs with
  | [] => .ok true
  | c :: _ =>
    if [' ', '\t', '\'', '"', '[', '{'].contains c || trimChars cs == "true".toList ||
        trimChars cs == "false".toList || isNumeral cs then .ok true
    else (moment? cs).map fun m => m.isSome || beginsAsTime cs

/-- Moves equals signs from the value into the key until the value can be taken for one. -/
def shiftCut (key : List (List Char)) (strict : Bool) :
    List (List Char) → Except Fault (List Char × List Char × Bool)
  | [] => .error .malformed
  | p :: ps => do
    let value := ['='].intercalate (p :: ps)
    let strict := strict && isStrict value
    if ← canBegin value then return (['='].intercalate key, value, strict) else shiftCut (key ++ [p]) strict ps

/-- Cuts a line into key and value, and tells whether the value could be a number with its low lines and zeros
in place. Low lines of a number that follows the equals sign at once are dropped before; a last value that can
be taken for none without them is tried as it stands. -/
def cutEntry (line : List Char) : Except Fault (List Char × List Char × Bool) := do
  let parts := line.splitOn '='
  let n := min (cutPlace ['='] line) (parts.length - 1)
  let key := parts.take n
  let value := ['='].intercalate (parts.drop n)
  let bare := if value.head?.any isAsciiDigit then value.filter (· != '_') else value
  if ← canBegin bare then return (['='].intercalate key, bare, isStrict value)
  else match parts.drop n with
    | p :: q :: ps => shiftCut (key ++ [p]) (isStrict value) (q :: ps)
    | last => if bare == value then throw .malformed else shiftCut key (isStrict value) last

def quotedNames : (quoted : Bool) → List (List Char) → List (List Char)
  | _, [] => []
  | true, p :: ps => p :: quotedNames false ps
  | false, p :: ps => (p.splitOn '.').map trimChars ++ quotedNames true ps

/-- The names of the tables to go through, and the key in the last of them. Empty names are passed over, but
some name there must be. -/
def keyPath (key : List Char) : Except Fault (List String × String) :=
  if key.contains '.' then
    let names := if key.any isQuote then quotedNames false (quotePieces key) else key.splitOn '.'
    match names.reverse.dropWhile (·.isEmpty) with
    | [] => .error .pastEnd
    | last :: above => .ok ((above.reverse.filter (!·.isEmpty)).map .ofList, .ofList (trimChars last))
  else match key with
    | [] => .error .pastEnd
    | c :: _ =>
      if isQuote c && key.getLast? == some c then
        (unescape ((middle key).map .char)).map fun k => ([], .ofList (CodePoint.chars k))
      else .ok ([], .ofList key)

def descend (change : Value → Except Fault (Value × α)) : List String → Value → Except Fault (Value × α)
  | [], v => change v
  | name :: names, .table entries => do
    let (below, a) ← descend change names ((entries.lookup name).getD (.table []))
    return (.table ((⟨entries⟩ : Keyed Value).put name below).entries, a)
  | _ :: _, _ => .error .notATable

def lastString (text : List Char) : List (List Char) → Except Fault (List Char)
  | [] => .ok text
  | before :: rest =>
    match text with
    | [] => .error .pastEnd
    | c :: _ => if isQuote c then .ok text else lastString (before ++ ',' :: text) rest

/-- Whether a value begins a string over several lines that it does not end. -/
def opensPending (value : List Char) : Except Fault Bool := do
  if value.length < 3 then return false
  let mut cs := value
  if value.head? == some '[' && value.getLast? != some ']' && holdsStrings value then
    match ((trimChars (value.drop 1)).splitOn ',').reverse with
    | last :: rest => cs ← lastString last rest
    | [] => throw .pastEnd
  match cs with
  | [] => throw .pastEnd
  | a :: rest =>
    if !isQuote a then return false
    match rest with
    | [] => throw .pastEnd
    | b :: rest =>
      if b != a then return false
      match rest with
      | [] => throw .pastEnd
      | c :: _ => return c == a && !(5 < cs.length && cs.reverse.take 3 == [a, a, a])

def putNew (key : String) (value : Value) : Value → Except Fault Value
  | .table entries => if (entries.lookup key).isSome then .error .malformed else .ok (.table (entries ++ [(key, value)]))
  | _ => .error .malformed

/-- Reads an entry into the value at hand. An entry whose string is not closed puts nothing there yet. -/
def entry (read : (strict : Bool) → List Char → Except Fault Value) (line : List Char) (v : Value) :
    Except Fault (Value × Option Pending) := do
  let (key, value, strict) ← cutEntry line
  let value := trimChars value
  let (above, key) ← keyPath (trimChars key)
  descend (fun v => do
    if ← opensPending value then
      let _ ← putNew key .nothing v
      if key.isEmpty then throw .unnamed
      return (v, some (.ofText key value))
    else return (← putNew key (← read strict value) v, none)) above v

/-- Whether a text can be the value of an entry in braces. It must not be empty. -/
def isInlineValue (value : List Char) : Except Fault Bool :=
  match value, value.getLast? with
  | c :: _, some last =>
    .ok ((isQuote c && c == last) || isAsciiDigit c || c == '-' || value == "true".toList ||
      value == "false".toList || (c == '[' && last == ']') || (c == '{' && last == '}'))
  | _, _ => .error .pastEnd

def inlineEntries (text : List Char) : List (List Char) → Except Fault (List (List Char))
  | [] => do
    let some value := (cutFirst '=' text).2 | throw .malformed
    if ← isInlineValue (trimChars value) then return [text] else throw .malformed
  | next :: rest => do
    let some value := (cutFirst '=' text).2 | throw .malformed
    if ← isInlineValue (trimChars value) then return text :: (← inlineEntries next rest)
    else inlineEntries (text ++ ',' :: next) rest

def readEntries (read : (strict : Bool) → List Char → Except Fault Value) :
    List (List Char) → Value → Except Fault Value
  | [], v => .ok v
  | line :: lines, v => do
    match ← entry read line v with
    | (v, none) => readEntries read lines v
    | (v, some _) => return v

def inlineTable (read : (strict : Bool) → List Char → Except Fault Value) (text : List Char) (v : Value) :
    Except Fault Value := do
  match (middle text).splitOn ',' with
  | [] => return v
  | [p] => if (trimChars p).isEmpty then return v else readEntries read (← inlineEntries p []) v
  | p :: ps => readEntries read (← inlineEntries p ps) v

/-- The kinds of values that an array keeps apart. -/
inductive Kind where
  | truth
  | whole
  | decimal
  | text
  | list
  | table
  | timeOfDay
  | date
  deriving DecidableEq

def Kind.of? : Value → Option Kind
  | .nothing => none
  | .truth _ => some truth
  | .whole _ => some whole
  | .decimal _ | .notANumber => some decimal
  | .moment (.timeOfDay _) => some timeOfDay
  | .moment _ => some date
  | .text _ | .unpaired _ => some text
  | .list _ => some list
  | .table _ => some table

/-- Reads the items of an array, which are all like the first one. Blank items are passed over. -/
def readItems (read : List Char → Except Fault Value) :
    (first : Option Value) → List (List Char) → Except Fault (List Value)
  | _, [] => .ok []
  | first, item :: items => do
    let item := trimChars item
    if item.isEmpty then readItems read first items
    else
      let v ← read item
      unless Kind.of? (first.getD v) = Kind.of? v do throw .malformed
      return v :: (← readItems read (some (first.getD v)) items)

/-- How much room there is for arrays and tables in braces inside each other. An array takes two parts of it,
and a table three. -/
def room : Nat := 980

/-- Reads a value, for which so much room is left. -/
def readValue : (room : Nat) → (strict : Bool) → List Char → Except Fault Value
  | room + 3, strict, cs =>
    match cs with
    | [] => .error .malformed
    | c :: _ =>
      if cs == "true".toList then .ok (.truth true)
      else if cs == "false".toList then .ok (.truth false)
      else if isQuote c then (stringOf c cs).map .ofPoints
      else if c == '[' then do
        return .list (← readItems (readValue (room + 1) true) none (← arrayItems cs))
      else if c == '{' then inlineTable (readValue room) cs (.table [])
      else if beginsAsTime cs then
        match timeOfDay? cs with
        | some time => .ok (.moment (.timeOfDay time))
        | none => .error .malformed
      else do
        match ← moment? cs with
        | some m => return .moment m
        | none =>
          match if strict then number? cs else none with
          | some v => return v
          | none => throw .malformed
  | _, _, _ => .error .tooDeep

def value (strict : Bool) (cs : List Char) : Except Fault Value := readValue room strict cs

end ChangeLens.Toml
