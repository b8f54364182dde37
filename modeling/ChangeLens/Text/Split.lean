/-! Cutting text at separators and joining it again, and what follows a given beginning. -/
namespace ChangeLens.Text

/-- The pieces of a text between the occurrences of `sep`; always at least one. -/
def splitAt (sep : Char) (s : String) : List String := (s.toList.splitOn sep).map .ofList

/-- The lines of a text. Only a line feed ends a line; a text that ends in one has an empty last line. -/
def lines (s : String) : List String := splitAt '\n' s

def joinWith (sep : String) (parts : List String) : String := sep.intercalate parts

/-- What stands before the first `sep`, and what stands after it if there is one. -/
def cutFirst (sep : Char) (cs : List Char) : List Char × Option (List Char) :=
  (cs.takeWhile (· != sep),
    match cs.dropWhile (· != sep) with
    | [] => none
    | _ :: after => some after)

/-- What stands before the last `sep`, if there is one, and what stands after it. -/
def cutLast (sep : Char) (cs : List Char) : Option (List Char) × List Char :=
  let (after, before) := cutFirst sep cs.reverse
  (before.map List.reverse, after.reverse)

/-- What follows `start` in `cs`, if `cs` begins with it. -/
def after? : (start cs : List Char) → Option (List Char)
  | [], cs => some cs
  | _ :: _, [] => none
  | s :: ss, c :: cs => if s = c then after? ss cs else none

def addFront (c : Char) : List (List Char) → List (List Char)
  | [] => [[c]]
  | p :: ps => (c :: p) :: ps

/-- The pieces of a text between occurrences of `sep`, where `passed` more characters still belong to the last
occurrence. -/
def piecesFrom (sep : List Char) : (passed : Nat) → List Char → List (List Char)
  | _, [] => [[]]
  | passed + 1, _ :: cs => piecesFrom sep passed cs
  | 0, c :: cs =>
    if (after? sep (c :: cs)).isSome then [] :: piecesFrom sep (sep.length - 1) cs
    else addFront c (piecesFrom sep 0 cs)

/-- The pieces of a text between the occurrences of `sep`, found from left to right; always at least one. -/
def pieces (sep cs : List Char) : List (List Char) := piecesFrom sep 0 cs

def replaced (old new cs : List Char) : List Char := new.intercalate (pieces old cs)

def startsWith (start s : String) : Bool := (after? start.toList s.toList).isSome

/-- The first `n` elements; a negative `n` counts from the end and leaves the last `-n` out. -/
def takeSigned (n : Int) (xs : List α) : List α :=
  if 0 ≤ n then xs.take n.toNat else xs.take ((xs.length : Int) + n).toNat

theorem after?_eq_some_iff {start cs rest : List Char} : after? start cs = some rest ↔ cs = start ++ rest := by
  induction start generalizing cs with
  | nil => simp [after?]
  | cons s ss ih =>
    cases cs with
    | nil => simp [after?]
    | cons c cs =>
      by_cases h : s = c
      · subst h; simp [after?, ih]
      · have h' : ¬c = s := fun e => h e.symm
        simp [after?, h, h']

end ChangeLens.Text
