import ChangeLens.Toml.Entry

/-! Headers, which name the table that the entries after them belong to: one table in single brackets, or one
more table of an array in double ones. -/
namespace ChangeLens.Toml

open Text Config

inductive Step where
  | name (name : String)
  /-- To the last item of an array. -/
  | last

abbrev Place := List Step

def mapLast (change : Value → Except Fault (Value × α)) : List Value → Except Fault (List Value × α)
  | [] => .error .pastEnd
  | [v] => (change v).map fun (v, a) => ([v], a)
  | v :: vs => (mapLast change vs).map fun (vs, a) => (v :: vs, a)

def changeAt (change : Value → Except Fault (Value × α)) : Place → Value → Except Fault (Value × α)
  | [], v => change v
  | .name name :: place, .table entries => do
    let some below := entries.lookup name | throw .notATable
    let (below, a) ← changeAt change place below
    return (.table ((⟨entries⟩ : Keyed Value).put name below).entries, a)
  | .last :: place, .list items => (mapLast (changeAt change place) items).map fun (items, a) => (.list items, a)
  | _ :: _, _ => .error .notATable

/-- What opening a table gives: the place of the table, and the names of tables that are there only because
others in them are. -/
structure Opened where
  place : Place := []
  implied : List String

def Opened.below (step : Step) : Value × Opened → Value × Opened
  | (v, o) => (v, { o with place := step :: o.place })

def fromLast (double : Bool) (go : Value → Except Fault (Value × Opened)) (v : Value) :
    Except Fault (Value × Opened) :=
  if !double then go v
  else match v with
    | .table _ => go v
    | .list items => (mapLast go items).map fun (items, o) => Opened.below .last (.list items, o)
    | .text s => if s.isEmpty then .error .pastEnd else go v
    | _ => .error .notATable

/-- The table that a header finds or makes under its last name. A table that is there is opened again only if
it was implied, and a table of an array is added to those that are there. -/
def openLast (double : Bool) (name : String) (implied : List String) :
    Option Value → Except Fault (Value × List String)
  | none => .ok (if double then .list [.table []] else .table [], implied)
  | some v =>
    if implied.contains name then (if double then .error .malformed else .ok (v, implied.erase name))
    else if !double then .error .malformed
    else match v with
      | .list items => .ok (.list (items ++ [.table []]), implied)
      | _ => .error .notATable

/-- Opens the table that names lead to. Names go on in the last item of an array, and what is found there is
opened as it is. -/
def openTable (double : Bool) : (names : List String) → (implied : List String) → Value →
    Except Fault (Value × Opened)
  | [], implied, v => .ok (v, { implied := implied })
  | name :: names, implied, v =>
    if name.isEmpty then .error .malformed
    else match v with
      | .table entries => do
        let found := entries.lookup name
        let (below, implied) ←
          if names.isEmpty then openLast double name implied found
          else match found with
            | some below => pure (below, implied)
            | none => pure (.table [], implied ++ [name])
        let (below, o) ← fromLast double (openTable double names implied) below
        return Opened.below (.name name) (.table ((⟨entries⟩ : Keyed Value).put name below).entries, o)
      | .list items => do
        let (items, o) ← mapLast (fun item =>
          match item with
          | .table entries => do
            let fresh := if names.isEmpty && double then .list [.table []] else .table []
            let below := (entries.lookup name).getD fresh
            let (below, o) ← fromLast double (openTable double names implied) below
            return Opened.below (.name name) (.table ((⟨entries⟩ : Keyed Value).put name below).entries, o)
          | _ => .error .notATable) items
        return Opened.below .last (.list items, o)
      | .text s => .error (if s.isEmpty then .pastEnd else .notATable)
      | _ => .error .notATable

def isBareChar (c : Char) : Bool := isAsciiLetter c || isAsciiDigit c || c == '_' || c == '-'

/-- The names in a header. A name in quotes may hold dots; `unclosed` is what is read of one. -/
def headerNames : (unclosed : Option (List Char)) → List (List Char) → Except Fault (List String)
  | none, [] => .ok []
  | some _, [] => .error .malformed
  | unclosed, p :: ps =>
    let text := match unclosed with
      | none => trimChars p
      | some front => front ++ '.' :: p
    let name := trimChars text
    if name.head?.any isQuote then
      if name.head? == name.getLast? && name.length ≠ 1 then
        (headerNames none ps).map (.ofList (middle name) :: ·)
      else headerNames (some text) ps
    else if !name.isEmpty && name.all isBareChar then (headerNames none ps).map (.ofList name :: ·)
    else .error .malformed

/-- A header: whether its brackets are double, and its names. Nothing may follow it on its line. -/
def header (line : List Char) : Except Fault (Bool × List String) := do
  let double := (line.drop 1).head? == some '['
  let close := if double then [']', ']'] else [']']
  let rest := line.drop (if double then 2 else 1)
  let some (names, after) := cutAt? close rest (cutPlace close rest) | throw .malformed
  unless (trimChars after).isEmpty do throw .malformed
  return (double, ← headerNames none (names.splitOn '.'))

end ChangeLens.Toml
