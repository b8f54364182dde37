import ChangeLens.Keyed
import ChangeLens.Sorted
import ChangeLens.Text.Number

/-! Patches in the unified format: cutting one into the sections of its files, counting what a section adds
and removes, and finding the lines that it adds on the new side. -/
namespace ChangeLens.Patch

open Text

/-- What stands at the beginning of the section of a file. -/
def sectionMark : List Char := "diff --git ".toList

/-- Puts a line in front of groups of lines: into the first of them, or, if it begins a section, there with
its mark removed, and with a new group in front. -/
def addLine (l : List Char) : List (List (List Char)) → List (List (List Char))
  | [] => []
  | g :: gs =>
    match after? sectionMark l with
    | some rest => [] :: (rest :: g) :: gs
    | none => (l :: g) :: gs

/-- The lines before the first section, then the lines of each section. -/
def groupLines (ls : List (List Char)) : List (List (List Char)) := ls.foldr addLine [[]]

/-- The texts of groups of lines. All but the last end in a line feed, which stood before the next mark. -/
def groupTexts : List (List (List Char)) → List (List Char)
  | [] => []
  | [g] => [['\n'].intercalate g]
  | g :: gs => g.flatMap (· ++ ['\n']) :: groupTexts gs

/-- The sections of a patch without their marks. What stands before the first mark is one too; empty ones
are left out. -/
def sections (patch : String) : List (List Char) :=
  (groupTexts (groupLines (patch.toList.splitOn '\n'))).filter (!·.isEmpty)

/-- The new path in the rest of a section's first line, from the first place on where one can begin. -/
def newPath? : List Char → Option (List Char)
  | [] => none
  | c :: cs =>
    match after? [' ', 'b', '/'] (c :: cs) with
    | some (p :: ps) => some (p :: ps)
    | _ => newPath? cs

/-- The new path that the first line of a section names. The old path before it is not empty. -/
def headerPath? (line : List Char) : Option (List Char) :=
  (after? ['a', '/'] line).bind fun rest => newPath? (rest.drop 1)

def takeDigits? (cs : List Char) : Option (List Char × List Char) :=
  let digits := cs.takeWhile isDigit
  if digits.isEmpty then none else some (digits, cs.dropWhile isDigit)

/-- What follows a count such as `,7`, which may be missing. -/
def skipCount : List Char → List Char
  | ',' :: cs => ((takeDigits? cs).map (·.2)).getD (',' :: cs)
  | cs => cs

/-- The digits of the first line on the new side, which the header of a hunk names, as in `@@ -3,7 +4,8 @@`. -/
def hunkStart? (line : List Char) : Option (List Char) := do
  let (_, rest) ← takeDigits? (← after? "@@ -".toList line)
  let (start, rest) ← takeDigits? (← after? [' ', '+'] (skipCount rest))
  let _ ← after? [' ', '@', '@'] (skipCount rest)
  return start

structure Walk where
  /-- The number of the next line on the new side. It is zero before the first header, where nothing counts. -/
  current : Nat := 0
  /-- The lines added so far, last first. -/
  added : List Nat := []

/-- Goes over a line that is no header. Removed lines, and the note that a file ends without a line feed, are
not on the new side. -/
def Walk.over (w : Walk) (line : List Char) : Walk :=
  if w.current = 0 then w
  else match line with
    | '+' :: _ => ⟨w.current + 1, w.current :: w.added⟩
    | '-' :: _ => w
    | '\\' :: _ => w
    | _ => { w with current := w.current + 1 }

def Walk.pass (w : Walk) (line : List Char) : Except TooLong Walk :=
  match hunkStart? line with
  | some start => (readDigits start).map fun n => { w with current := n }
  | none => .ok (w.over line)

/-- The numbers on the new side of the lines that some hunks add. -/
def changedLines (hunks : String) : Except TooLong (List Nat) := do
  let w ← (hunks.toList.splitOn '\n').foldlM Walk.pass {}
  return sortDistinct (· ≤ ·) w.added

structure FilePatch where
  hunks : String
  additions : Nat
  deletions : Nat
  deriving DecidableEq

def isAddition (line : List Char) : Bool :=
  (after? ['+'] line).isSome && (after? ['+', '+', '+'] line).isNone

def isDeletion (line : List Char) : Bool :=
  (after? ['-'] line).isSome && (after? ['-', '-', '-'] line).isNone

/-- The lines of a section from the header of its first hunk on. -/
def hunkLines (ls : List (List Char)) : List (List Char) :=
  ls.tail.dropWhile fun l => (after? ['@', '@'] l).isNone

def readSection? (text : List Char) : Option (String × FilePatch) :=
  let ls := text.splitOn '\n'
  (headerPath? (ls.headD [])).map fun path =>
    let hunks := hunkLines ls
    (.ofList path, ⟨.ofList (['\n'].intercalate hunks), hunks.countP isAddition, hunks.countP isDeletion⟩)

def byPath (patch : String) : Keyed FilePatch := .ofList ((sections patch).filterMap readSection?)

end ChangeLens.Patch
