import ChangeLens.Toml.Header

/-! Reading a document: entries, and headers that say where those after them go. A document with a fault has no
reading at all. The program is run with this reader; what is proved of stored settings is proved of any format. -/
namespace ChangeLens.Toml

open Text Config

structure Reading where
  top : Value := .table []
  place : Place := []
  /-- The names of tables that are there only because others in them are. -/
  implied : List String := []
  pending : Option Pending := none

namespace Reading

def put (key : String) (value : Value) : Value → Except Fault (Value × Unit)
  | .table entries => .ok (.table ((⟨entries⟩ : Keyed Value).put key value).entries, ())
  | _ => .error .notATable

/-- Whether a line closes what is pending: an array by its bracket, a string by three of its marks. -/
def closes (text line : List Char) : Except Fault Bool :=
  match text.head?, line.getLast? with
  | some '[', none => .error .pastEnd
  | some '[', some last => .ok (last == ']')
  | some mark, _ => .ok (line.reverse.take 3 == [mark, mark, mark])
  | none, _ => .error .pastEnd

/-- Goes over a line while a string is not closed. The string goes to the place of the header, whatever tables
its key names. -/
def passPending (r : Reading) (p : Pending) (line : List Char) : Except Fault Reading := do
  let text := p.text ++ line
  if ← closes text line then
    let v ← value true text
    let (top, _) ← changeAt (put p.key v) r.place r.top
    return { r with top := top, pending := none }
  else return { r with pending := some (.ofText p.key text) }

def passStatement (r : Reading) (line : List Char) : Except Fault Reading := do
  if line.head? == some '[' then
    let (double, names) ← header line
    let (top, o) ← openTable double names r.implied r.top
    return { r with top := top, place := o.place, implied := o.implied }
  else if line.head? == some '{' then
    if line.getLast? != some '}' then throw .malformed
    let change (v : Value) : Except Fault (Value × Unit) :=
      (inlineTable (value ·) line v).map (·, ())
    return { r with top := (← changeAt change r.place r.top).1 }
  else if line.contains '=' then
    let (top, pending) ← changeAt (entry (value ·) line) r.place r.top
    return { r with top := top, pending := pending }
  else return r

/-- Goes over one line. A string that has gone on over a line end keeps the blanks of its lines. -/
def pass (r : Reading) (line : List Char) : Except Fault Reading :=
  match r.pending with
  | none =>
    let line := trimChars line
    if line.isEmpty then .ok r else r.passStatement line
  | some p =>
    let line := if p.joined || !p.text.contains '\n' then trimChars line else line
    if line.isEmpty && p.joined then .ok r else r.passPending p line

end Reading

def parse (text : String) : Except Fault Table := do
  let r ← (← outline text.toList).foldlM Reading.pass {}
  match r.top with
  | .table entries => return entries
  | _ => return []

end ChangeLens.Toml
