import ChangeLens.Sorted
import ChangeLens.Text.Letter
import ChangeLens.Text.Lowercase

/-! Stems: the words of an identifier in small letters, short ones left out. Names are related when they
share a stem. Words are told apart by case, by digits, and by every character that is neither. -/
namespace ChangeLens.Stem

open Text

def isUpper (c : Char) : Bool := 'A' ≤ c && c ≤ 'Z'
def isLower (c : Char) : Bool := 'a' ≤ c && c ≤ 'z'
def isNameChar (c : Char) : Bool := isAsciiLetter c || isAsciiDigit c

/-- How many characters the first word has. A row of capitals gives its last one to the small letters that
follow, as in `HTTPServer`; a lone capital goes with them. -/
def wordLength (cs : List Char) : Nat :=
  let capitals := (cs.takeWhile isUpper).length
  let rest := cs.drop capitals
  let small := (rest.takeWhile isLower).length
  if capitals = 0 then
    if small = 0 then (cs.takeWhile isAsciiDigit).length else small
  else if small = 0 then capitals
  else if capitals = 1 then 1 + small
  else capitals - 1

def wordsOf (cs : List Char) : List (List Char) :=
  if _h : wordLength cs = 0 ∨ cs = [] then []
  else cs.take (wordLength cs) :: wordsOf (cs.drop (wordLength cs))
termination_by cs.length
decreasing_by
  have : cs.length ≠ 0 := fun e => _h (Or.inr (List.length_eq_zero_iff.1 e))
  simp only [List.length_drop]; omega

/-- The longest rows of letters and digits, some of them empty. -/
def parts : List Char → List (List Char)
  | [] => [[]]
  | c :: cs =>
    if isNameChar c then
      match parts cs with
      | [] => [[c]]
      | p :: ps => (c :: p) :: ps
    else [] :: parts cs

def words (name : String) : List (List Char) := (parts name.toList).flatMap wordsOf

def minLength : Nat := 4

def stems (name : String) : List String :=
  sortDistinct (· ≤ ·)
    (((words name).filter (minLength ≤ ·.length)).map fun w => String.ofList (w.map lowerChar))

def related (a b : String) : Bool := (stems a).any ((stems b).contains ·)

end ChangeLens.Stem
