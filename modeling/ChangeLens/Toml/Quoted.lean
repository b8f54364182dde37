import ChangeLens.Text.CodePoint
import ChangeLens.Toml.Outline
import ChangeLens.Toml.Pieces
import ChangeLens.Text.Number

/-! Strings in quotes: where they end, and what their escapes stand for. -/
namespace ChangeLens.Toml

open Text

def escaped? : Char → Option Char
  | '0' => some '\x00'
  | 'b' => some '\x08'
  | 'f' => some '\x0c'
  | 'n' => some '\n'
  | 'r' => some '\r'
  | 't' => some '\t'
  | '"' => some '"'
  | _ => none

/-- Replaces escapes. Those by number stay as they are; a backslash that ends the text stays too. -/
def unescape : List CodePoint → Except Fault (List CodePoint)
  | .char '\\' :: p :: ps =>
    match p with
    | .half _ => .error .malformed
    | .char c =>
      match escaped? c with
      | some e => (unescape ps).map (.char e :: ·)
      | none =>
        if c == '\\' then (unescape ps).map (.char '\\' :: ·)
        else if c == 'u' || c == 'U' then (unescape ps).map fun rest => .char '\\' :: .char c :: rest
        else .error .malformed
  | p :: ps => (unescape ps).map (p :: ·)
  | [] => .ok []

/-- Whether after every backslash that counts comes a character that may be escaped. The argument holds what
stands between backslashes, after the first. -/
def escapesFit : (escaped : Bool) → List (List Char) → Bool
  | _, [] => true
  | escaped, [] :: ps => escapesFit (!escaped) ps
  | escaped, (c :: _) :: ps => ((escaped? c).isSome || c == 'u' || c == 'U' || escaped) && escapesFit false ps

/-- The code point by its digits in base sixteen. Fewer digits than due are taken as they are; digits that
would begin half of a surrogate pair are refused, so that only zeros before them let them pass. -/
def numberedPoint (digits : List Char) : Except Fault CodePoint :=
  match digits.mapM (digitIn? 16), digits with
  | none, _ => .error .malformed
  | some _, [] => .error .pastEnd
  | some _, ['d'] | some _, ['D'] => .error .pastEnd
  | some values, d :: e :: _ =>
    if (d == 'd' || d == 'D') && !('0' ≤ e && e ≤ '7') then .error .malformed
    else if 0x80000000 ≤ values.foldl (fun n v => 16 * n + v) 0 then .error .tooGreat
    else pointOf values
  | some values, [_] => pointOf values
where
  pointOf (values : List Nat) : Except Fault CodePoint :=
    match CodePoint.ofNat? (values.foldl (fun n v => 16 * n + v) 0) with
    | some p => .ok p
    | none => .error .malformed

/-- Replaces escapes by number in the pieces behind `\u` or `\U`. An escaped backslash leaves its piece alone. -/
def expandPieces (letter : Char) (width : Nat) : (escaped : Bool) → List (List Char) →
    Except Fault (List CodePoint)
  | _, [] => .ok []
  | true, p :: ps => do
    let rest ← expandPieces letter width (endsEscaped p) ps
    return ('\\' :: letter :: p).map .char ++ rest
  | false, p :: ps => do
    let c ← numberedPoint (p.take width)
    let rest ← expandPieces letter width false ps
    return c :: (p.drop width).map .char ++ rest

def expand (letter : Char) (width : Nat) (cs : List Char) : Except Fault (List CodePoint) :=
  match pieces ['\\', letter] cs with
  | [] => .ok []
  | p :: ps => (expandPieces letter width (endsEscaped p) ps).map (p.map .char ++ ·)

structure Marks where
  closed : Bool := false
  /-- How many marks in a row end the part that is read. -/
  inRow : Nat := 0

/-- Goes over the text between two marks. No text may come after the string is closed. -/
def Marks.pass (long : Bool) (m : Marks) (between : List Char) : Option Marks :=
  if between.isEmpty then some (if long then { m with inRow := m.inRow + 1 } else { m with closed := true })
  else if endsEscaped between then some m
  else if m.closed then none
  else if long && m.inRow ≤ 1 then some { m with inRow := 0 }
  else some { m with closed := true }

def endsClosed (mark : Char) (cs : List Char) : Bool :=
  match (cs.drop 1).splitOn mark with
  | [] :: [] :: parts => (parts.foldlM (Marks.pass true) {}).isSome
  | parts => (parts.foldlM (Marks.pass false) {}).isSome

/-- What is inside the marks, of which there are three on each side if a second one comes first. -/
def withoutMarks (mark : CodePoint) (ps : List CodePoint) : List CodePoint :=
  match ps with
  | _ :: b :: c :: _ => if b = mark ∧ c = mark then middle (middle (middle ps)) else middle ps
  | _ => []

/-- What the string in a value in quotes writes. Escapes count in double quotes only; those with four digits
give characters. -/
def stringOf (mark : Char) (cs : List Char) : Except Fault (List CodePoint) := do
  unless endsClosed mark cs do throw .malformed
  let mut ps := cs.map .char
  if mark == '"' then
    unless escapesFit false (cs.splitOn '\\').tail do throw .malformed
    ps ← expand 'u' 4 cs
    ps ← expand 'U' 8 (CodePoint.chars ps)
    ps ← unescape ps
  return withoutMarks (.char mark) ps

end ChangeLens.Toml
