import ChangeLens.Config.Value
import ChangeLens.Decimal.Reading

/-! Numbers in a document. After one sign, which the number may repeat, low lines count for nothing; a number
is whole unless a point or an exponent is in it, and may name its base. -/
namespace ChangeLens.Toml

open Text Config

/-- Whether two low lines stand side by side. -/
def hasDoubled (cs : List Char) : Bool := (pieces ['_', '_'] cs).length ≠ 1

/-- Whether low lines and leading zeros stand where they may in a number. A single character always does. -/
def isStrict (cs : List Char) : Bool :=
  let cs := trimChars cs
  let atPoint := (pieces ['_', '.'] cs).length ≠ 1 || (pieces ['.', '_'] cs).length ≠ 1
  match cs with
  | [] => false
  | [c] => c != '_'
  | a :: b :: rest =>
    if a == '_' || cs.getLast? == some '_' || atPoint then false
    else if a == '0' && !(['.', 'o', 'b', 'x'].contains b) then false
    else if a == '+' || a == '-' then
      (match b, rest with
      | '0', c :: _ => c == '.' && !hasDoubled (b :: rest)
      | _, _ => !hasDoubled (b :: rest))
    else !hasDoubled cs

/-- Whether a number after its sign is written with a point or an exponent. An exponent needs no sign of its
own to be told from the digits of a base, since those follow an `x`. -/
def isFractional (cs : List Char) : Bool :=
  cs.contains '.' || (!cs.contains 'x' && (cs.contains 'e' || cs.contains 'E'))

/-- What a word stands for: a number beyond all others, or none at all. -/
def numberWord? (negative : Bool) (cs : List Char) : Option Value :=
  match cs.map Char.toLower with
  | ['i', 'n', 'f'] => some (.decimal (.infinite negative))
  | ['n', 'a', 'n'] => some .notANumber
  | _ => none

/-- A number with a point or an exponent: a digit comes first, and some character after the point. -/
def fractional? (cs : List Char) : Option Decimal :=
  if (cutFirst '.' cs).2 == some [] || !(cs.head?.any isAsciiDigit) then none else Decimal.read? cs

def number? (cs : List Char) : Option Value :=
  let (negative, cs) := takeSign cs
  let cs := cs.filter (· != '_')
  if isFractional cs then
    (fractional? cs).map fun x => .decimal (if negative then x.negated else x)
  else (numberWord? negative cs).or ((readBased? cs).map fun n => .whole (if negative then -n else n))

/-- Whether a text can be told to be a number as it stands, so that a key need not go on behind it. -/
def isNumeral (cs : List Char) : Bool :=
  (Decimal.read? cs).isSome || (numberWord? false (takeSign (numeral cs)).2).isSome

end ChangeLens.Toml
