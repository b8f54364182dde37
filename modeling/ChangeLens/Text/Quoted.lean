import ChangeLens.Text.CodePoint
import ChangeLens.Text.Printable

/-! Text in quotes, as messages show a value that was refused. Single quotes are used unless the text holds
one and no double quote; what cannot be printed is written by number. -/
namespace ChangeLens.Text

def hexDigits : (width n : Nat) → List Char
  | 0, _ => []
  | width + 1, n => hexDigits width (n / 16) ++ [Nat.digitChar (n % 16)]

/-- A code point by its number, in the shortest of the three forms that holds it. -/
def numbered (n : Nat) : List Char :=
  if n < 0x100 then ['\\', 'x'] ++ hexDigits 2 n
  else if n < 0x10000 then ['\\', 'u'] ++ hexDigits 4 n
  else ['\\', 'U'] ++ hexDigits 8 n

def quoteChar (mark c : Char) : List Char :=
  if c = mark || c = '\\' then ['\\', c]
  else if c = '\n' then ['\\', 'n']
  else if c = '\r' then ['\\', 'r']
  else if c = '\t' then ['\\', 't']
  else if isPrintable c then [c]
  else numbered c.toNat

def quoteMark (cs : List Char) : Char := if cs.contains '\'' && !cs.contains '"' then '"' else '\''

def quoted (s : String) : String :=
  let mark := quoteMark s.toList
  .ofList (mark :: s.toList.flatMap (quoteChar mark) ++ [mark])

def quotePoint (mark : Char) : CodePoint → List Char
  | .char c => quoteChar mark c
  | .half n => numbered n

/-- Code points in quotes. Half of a surrogate pair cannot be printed. -/
def quotedPoints (ps : List CodePoint) : String :=
  let mark := quoteMark (CodePoint.chars ps)
  .ofList (mark :: ps.flatMap (quotePoint mark) ++ [mark])

end ChangeLens.Text
