import ChangeLens.Text.Blank
import ChangeLens.Text.Letter
import ChangeLens.Toml.Fault

/-! The outline of a document. One walk over its characters follows strings, brackets and keys; it blanks
comments and the line ends inside arrays, and refuses lines that begin no statement. What is left has one
statement a line, save for strings over several lines. -/
namespace ChangeLens.Toml

open Text

def isQuote (c : Char) : Bool := c == '"' || c == '\''

/-- Whether an odd number of backslashes ends a text, so that the next character is escaped. -/
def endsEscaped (cs : List Char) : Bool := (cs.reverse.takeWhile (· == '\\')).length % 2 == 1

inductive KeyPart where
  | outside
  | name
  /-- After a name, where a dot or the equals sign is due. -/
  | after
  deriving DecidableEq

inductive Brackets where
  | none
  | single
  | double
  deriving DecidableEq

structure Walk where
  /-- The characters passed, last first. Before the beginning stands the end of the document, as in a ring. -/
  before : List Char
  comment : Bool := false
  /-- How many arrays are open; less than none after brackets that close nothing. -/
  depth : Int := 0
  /-- The mark that closes the string in which the walk stands. -/
  mark : Option Char := none
  /-- Whether a string may go on over line ends. -/
  long : Bool := false
  header : Brackets := .none
  lineStart : Bool := true
  key : KeyPart := .outside
  /-- Whether the key holds a dot. -/
  dotted : Bool := false

namespace Walk

def push (w : Walk) (c : Char) : Walk := { w with before := c :: w.before }

/-- After a dot, or after a blank in a dotted key, a name goes on unless a blank or a dot is next. -/
def resume (w : Walk) : Option Char → Except Fault Walk
  | none => .error .pastEnd
  | some next => .ok (if isBlank next || next == '.' then w else { w with key := .name })

/-- Passes a character of a key outside of quotes. -/
def passKey (w : Walk) (c : Char) (next : Option Char) : Except Fault Walk :=
  if w.key = .name && isBlank c then .ok { w with key := .after }
  else if w.key = .name && c == '.' then .ok { w with dotted := true }
  else if w.key = .name && (isWordChar c || c == '-') then .ok w
  else if w.key = .name && w.dotted && w.before.head? == some '.' && isQuote c then
    .ok { w with mark := some c }
  else if w.key = .after && isBlank c then (if w.dotted then w.resume next else .ok w)
  else if w.key = .after && c == '.' then { w with dotted := true }.resume next
  else if c == '=' then .ok { w with key := .outside, dotted := false }
  else .error .malformed

def passQuotedKey (w : Walk) (c : Char) : Walk :=
  if w.mark == some c && (w.before.takeWhile (· == '\\')).length % 2 == 0 then { w with mark := none, key := .after }
  else w

def toggle (w : Walk) (c : Char) : Walk := { w with mark := if w.mark.isSome then none else some c }

/-- The third mark in a row begins or ends a string over several lines. -/
def toggleLong (w : Walk) (c : Char) : Walk :=
  { w with long := !w.long, mark := if w.long then none else some c }

/-- Passes a quote. Only a double one can be escaped; the second of two is not asked for it. -/
def passQuote (w : Walk) (c : Char) : Walk :=
  if w.mark.any (· != c) then w
  else
    let third := w.before.take 2 == [c, c]
    let asked := if third then w.before.drop 2 else if w.before.head? == some c then [] else w.before
    if c == '"' && (asked.takeWhile (· == '\\')).length % 2 == 1 then w
    else if third then w.toggleLong c
    else w.toggle c

def passBracket (w : Walk) (c : Char) (next : Option Char) : Walk :=
  if w.mark.isSome then w
  else if c == '[' then
    if w.header ≠ .none then w
    else if w.lineStart then { w with header := if next == some '[' then .double else .single }
    else { w with depth := w.depth + 1 }
  else match w.header with
    | .none => { w with depth := w.depth - 1 }
    | .single => { w with header := .none }
    | .double => if w.before.head? == some ']' then { w with header := .none } else w

/-- Passes a line end. One in a string is kept, but after two quotes it becomes a third, so that a string over
several lines does not begin with it. -/
def passLineEnd (w : Walk) : Except Fault Walk :=
  if w.mark.isSome || w.long then
    if !w.long then .error .malformed
    else match w.before with
      | a :: b :: rest =>
        if isQuote a && b == a then
          .ok { w with before := a :: a :: b :: (if rest.head? == some a then ' ' :: rest.tail else rest) }
        else .ok (w.push '\n')
      | _ => .ok (w.push '\n')
  else if w.depth ≠ 0 then .ok (w.push ' ')
  else .ok ({ w with lineStart := true }.push '\n')

/-- Notes the first character of a line that is no indent: it begins a header or a key. -/
def passFirst (w : Walk) (c : Char) : Except Fault Walk :=
  if !w.lineStart || isIndent c then .ok w
  else if w.header ≠ .none then .ok { w with lineStart := false }
  else if c == '=' then .error .malformed
  else .ok { w with lineStart := false, key := .name }

def pass (w : Walk) (c : Char) (next : Option Char) : Except Fault Walk :=
  if w.comment && c != '\n' then .ok (w.push ' ')
  else if w.key ≠ .outside then
    if c == '\n' then .error .malformed
    else if w.mark.isSome then .ok ((w.passQuotedKey c).push c)
    else (w.passKey c next).map (·.push c)
  else if c == '\n' then ({ w with comment := false } : Walk).passLineEnd
  else if c == '#' && w.mark.isNone && w.header = .none then .ok (({ w with comment := true } : Walk).push ' ')
  else
    let w := if isQuote c then w.passQuote c else if c == '[' || c == ']' then w.passBracket c next else w
    (w.passFirst c).map (·.push c)

def run : List Char → Walk → Except Fault Walk
  | [], w => .ok w
  | c :: cs, w => do run cs (← w.pass c cs.head?)

end Walk

/-- The outline of a document, line by line. No key may be left without a value, and no string open. -/
def outline (cs : List Char) : Except Fault (List (List Char)) := do
  let w ← Walk.run cs { before := cs.reverse }
  if w.key ≠ .outside || w.mark.isSome then throw .malformed
  return ((w.before.take cs.length).reverse).splitOn '\n'

end ChangeLens.Toml
