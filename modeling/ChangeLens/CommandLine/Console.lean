import ChangeLens.Command.Run
import ChangeLens.Text.Letter

/-! How what is shown is drawn on a console: markup with tags in square brackets, and tables. What is printed beside it
is plain text, which holds nothing that only a terminal understands. -/
namespace ChangeLens.CommandLine

open Text

def beginsTag (c : Char) : Bool := ('a' ≤ c && c ≤ 'z') || c == '#' || c == '/' || c == '@'

/-- A tag that begins after an opening bracket: its text up to the closing bracket, that included, and what
follows it. No other bracket may open in it. -/
def takeTag? : List Char → Option (List Char × List Char)
  | c :: cs =>
    if beginsTag c then
      match cutFirst ']' cs with
      | (inner, some rest) => if inner.contains '[' then none else some (c :: inner ++ [']'], rest)
      | (_, none) => none
    else none
  | [] => none

/-- Puts a backslash before each tag and doubles those that stand before it already. `slashes` are the
backslashes just passed, `fuel` bounds the rest of the text. -/
def escapeFrom : (fuel : Nat) → (slashes : List Char) → List Char → List Char
  | 0, slashes, cs => slashes ++ cs
  | _, slashes, [] => slashes
  | fuel + 1, slashes, '\\' :: cs => escapeFrom fuel ('\\' :: slashes) cs
  | fuel + 1, slashes, '[' :: cs =>
    match takeTag? cs with
    | some (tag, rest) => slashes ++ slashes ++ ['\\', '['] ++ tag ++ escapeFrom fuel [] rest
    | none => slashes ++ '[' :: escapeFrom fuel [] cs
  | fuel + 1, slashes, c :: cs => slashes ++ c :: escapeFrom fuel [] cs

/-- Text as markup that shows it as it is. A single backslash at the end is doubled, so that it does not
spoil a tag that comes after. -/
def escape (s : String) : String :=
  let cs := escapeFrom s.toList.length [] s.toList
  match cs.reverse with
  | '\\' :: '\\' :: _ => .ofList cs
  | '\\' :: _ => .ofList (cs ++ ['\\'])
  | _ => .ofList cs

def plainFrom : (fuel : Nat) → List Char → List Char
  | 0, cs => cs
  | _, [] => []
  | fuel + 1, '\\' :: '[' :: cs => '[' :: plainFrom fuel cs
  | fuel + 1, '[' :: cs =>
    match takeTag? cs with
    | some (_, rest) => plainFrom fuel rest
    | none => '[' :: plainFrom fuel cs
  | fuel + 1, c :: cs => c :: plainFrom fuel cs

def markup (pieces : List Command.Piece) : String :=
  String.join (pieces.map fun
    | .markup text => text
    | .plain text => escape text)

def plain (markup : String) : String := .ofList (plainFrom markup.toList.length markup.toList)

/-- How long the control sequence is with which a text begins, if it begins with one: an escape, an opening bracket,
parameters of digits, semicolons and question marks, and a letter of ASCII. -/
def controlLength? : List Char → Option Nat
  | '\x1b' :: '[' :: cs =>
    let parameters := cs.takeWhile fun c => isAsciiDigit c || c == ';' || c == '?'
    if (cs.drop parameters.length).head?.any isAsciiLetter then some (parameters.length + 3) else none
  | _ => none

/-- A text without its control sequences, where `passed` more characters still belong to the last one. -/
def dropControls : (passed : Nat) → List Char → List Char
  | _, [] => []
  | passed + 1, _ :: cs => dropControls passed cs
  | 0, c :: cs =>
    match controlLength? (c :: cs) with
    | some length => dropControls (length - 1) cs
    | none => c :: dropControls 0 cs

/-- A text as it is printed where there is no terminal: without control sequences, and with line feeds alone
at the ends of its lines. -/
def printed (s : String) : String := .ofList (replaced ['\r', '\n'] ['\n'] (dropControls 0 s.toList))

def padTo (width : Nat) (s : String) : String := s ++ .ofList (List.replicate (width - s.length) ' ')

def inColumns (rows : List (List String)) : List String :=
  let count := (rows.map List.length).foldl max 0
  let widths := (List.range count).map fun i => (rows.map fun row => ((row[i]?).getD "").length).foldl max 0
  rows.map fun row => joinWith "  " ((row.zip widths).map fun (cell, width) => padTo width cell)

def lines : Command.Shown → List String
  | .line pieces => [plain (markup pieces)]
  | .table title columns rows => plain title :: inColumns (columns :: rows.map (·.map plain))

end ChangeLens.CommandLine
