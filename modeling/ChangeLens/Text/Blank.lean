/-! Blank characters and trimming. One set of blanks serves every place that trims, skips or asks whether
a text is blank: the Unicode separators and the controls that move the cursor, but not the zero-width space. -/
namespace ChangeLens.Text

def isBlank (c : Char) : Bool :=
  let n := c.toNat
  (9 ≤ n && n ≤ 13) || (28 ≤ n && n ≤ 32) || n == 0x85 || n == 0xa0 || n == 0x1680 ||
  (0x2000 ≤ n && n ≤ 0x200a) || n == 0x2028 || n == 0x2029 || n == 0x202f || n == 0x205f || n == 0x3000

/-- A blank that stays on its line and may indent it. -/
def isIndent (c : Char) : Bool := c == ' ' || c == '\t'

def dropEndWhile (p : Char → Bool) (cs : List Char) : List Char := (cs.reverse.dropWhile p).reverse

/-- Drops the characters satisfying `p` from both ends. -/
def trimWhile (p : Char → Bool) (cs : List Char) : List Char := dropEndWhile p (cs.dropWhile p)

def trimChars (cs : List Char) : List Char := trimWhile isBlank cs

def trim (s : String) : String := .ofList (trimChars s.toList)

def allBlank (s : String) : Bool := s.toList.all isBlank

end ChangeLens.Text
