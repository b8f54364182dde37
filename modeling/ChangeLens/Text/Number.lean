import ChangeLens.Text.Blank
import ChangeLens.Text.Letter
import ChangeLens.Text.Split

/-! Whole numbers in text, as people write them in settings: blanks around, one sign in front, digits of any
script, and single low lines between digits. A number of very many digits is refused unread. -/
namespace ChangeLens.Text

/-- The code points of the digit zero in every script, of the Unicode 14 character database. Each script numbers ten
consecutive code points from zero to nine. -/
def zeroDigits : List Nat := [
  48, 1632, 1776, 1984, 2406, 2534, 2662, 2790, 2918, 3046, 3174, 3302, 3430, 3558, 3664, 3792,
  3872, 4160, 4240, 6112, 6160, 6470, 6608, 6784, 6800, 6992, 7088, 7232, 7248, 42528, 43216,
  43264, 43472, 43504, 43600, 44016, 65296, 66720, 68912, 69734, 69872, 69942, 70096, 70384,
  70736, 70864, 71248, 71360, 71472, 71904, 72016, 72784, 73040, 73120, 92768, 92864, 93008,
  120782, 120792, 120802, 120812, 120822, 123200, 123632, 125264, 130032]

def digitValue? (c : Char) : Option Nat :=
  (zeroDigits.find? fun start => start ≤ c.toNat && c.toNat < start + 10).map (c.toNat - ·)

def isDigit (c : Char) : Bool := (digitValue? c).isSome

/-- The number that a row of decimal digits writes; characters that are no digits count as zero. -/
def digitsValue (digits : List Char) : Nat :=
  digits.foldl (fun n c => 10 * n + (digitValue? c).getD 0) 0

def maxDigits : Nat := 4300

structure TooLong where
  digits : Nat
  deriving DecidableEq

/-- How a number with more digits than that is told of. Their count is given where the number is read. -/
def overLimit (count : String) : String :=
  "Exceeds the limit (" ++ toString maxDigits ++ " digits) for integer string conversion" ++ count ++
    "; use sys.set_int_max_str_digits() to increase the limit"

def TooLong.message (t : TooLong) : String := overLimit (": value has " ++ toString t.digits ++ " digits")

/-- The number that a row of digits writes, leading zeros counting as digits. -/
def readDigits (digits : List Char) : Except TooLong Nat :=
  if maxDigits < digits.length then .error ⟨digits.length⟩ else .ok (digitsValue digits)

/-- A blank that may stand around a number: of the controls only those that move the cursor. -/
def isNumberBlank (c : Char) : Bool := c == ' ' || (9 ≤ c.toNat && c.toNat ≤ 13)

/-- The character of ASCII that a number is read with: the same digit, or a space for a blank. -/
def plain (c : Char) : Char :=
  match digitValue? c with
  | some d => Nat.digitChar d
  | none => if 127 < c.toNat && isBlank c then ' ' else c

/-- A number without the blanks around it, in plain characters. -/
def numeral (cs : List Char) : List Char := trimWhile isNumberBlank (cs.map plain)

def takeSign : List Char → Bool × List Char
  | '-' :: cs => (true, cs)
  | '+' :: cs => (false, cs)
  | cs => (false, cs)

def signed (negative : Bool) (n : Nat) : Int := if negative then -(n : Int) else n

/-- The digits of a number, low lines removed. Each piece between low lines must hold digits only, at
least one. -/
def ungroup? (cs : List Char) : Option (List Char) :=
  let groups := cs.splitOn '_'
  if groups.all (fun g => !g.isEmpty && g.all isAsciiDigit) then some groups.flatten else none

def readInt? (s : String) : Option Int :=
  let (negative, cs) := takeSign (numeral s.toList)
  ((ungroup? cs).bind fun digits => (readDigits digits).toOption).map (signed negative)

/-- What a digit or a letter of ASCII stands for as a digit of a large base. -/
def digitIn? (base : Nat) (c : Char) : Option Nat :=
  let n :=
    if isAsciiDigit c then c.toNat - '0'.toNat
    else if isAsciiLetter c then c.toLower.toNat - 'a'.toNat + 10
    else base
  if n < base then some n else none

/-- The number that a row of digits writes in a base, at least one. -/
def readBase? (base : Nat) (digits : List Char) : Option Nat :=
  if digits.isEmpty then none
  else (digits.mapM (digitIn? base)).map (·.foldl (fun n d => base * n + d) 0)

/-- The whole number that a text writes in the base that it names, as in `0x1f`, `0o17` and `0b11`. One
without a base is decimal, and only zero begins with a zero. -/
def readBased? (cs : List Char) : Option Int :=
  let (negative, cs) := takeSign (numeral cs)
  let value := match cs with
    | '0' :: 'x' :: ds | '0' :: 'X' :: ds => readBase? 16 ds
    | '0' :: 'o' :: ds | '0' :: 'O' :: ds => readBase? 8 ds
    | '0' :: 'b' :: ds | '0' :: 'B' :: ds => readBase? 2 ds
    | '0' :: ds => if ds.all (· == '0') then (readDigits cs).toOption else none
    | _ => (readBase? 10 cs).bind fun _ => (readDigits cs).toOption
  value.map (signed negative)

end ChangeLens.Text
