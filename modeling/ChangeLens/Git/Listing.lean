import ChangeLens.Change.Basic
import ChangeLens.Text.Blank
import ChangeLens.Text.Split

/-! The line formats in which git lists the files of a change and the commits of a file. -/
namespace ChangeLens

/-- A file in the listing of a change. Only a renamed file has an old path. -/
structure Listed where
  path : String
  oldPath : Option String
  status : Status
  deriving DecidableEq

/-- A line that says a file was added or deleted and does not say which. -/
structure MissingPath where
  line : String
  deriving DecidableEq

namespace Listed

/-- Reads a line by its first letter. A line of another letter is a modified file, if it names one; of two
paths the last counts, so that a copy is listed by where it went. -/
def ofLine (line : String) : Except MissingPath (Option Listed) :=
  let fields := Text.splitAt '\t' line
  match line.toList.head?, fields with
  | some 'R', _ :: old :: new :: _ => .ok (some ⟨new, some old, .renamed⟩)
  | some 'A', _ :: path :: _ => .ok (some ⟨path, none, .added⟩)
  | some 'A', _ => .error ⟨line⟩
  | some 'D', _ :: path :: _ => .ok (some ⟨path, none, .deleted⟩)
  | some 'D', _ => .error ⟨line⟩
  | _, _ :: second :: rest => .ok (some ⟨(second :: rest).getLastD second, none, .modified⟩)
  | _, _ => .ok none

def ofLines : List String → Except MissingPath (List Listed)
  | [] => .ok []
  | l :: ls => do
    if Text.allBlank l then ofLines ls
    else return (← ofLine l).toList ++ (← ofLines ls)

/-- The files in the listing of a change. Blanks around the whole listing are dropped first. -/
def ofText (text : String) : Except MissingPath (List Listed) := ofLines (Text.lines (Text.trim text))

end Listed

/-- A commit that touched a file, as a log of one line per commit shows it. -/
structure HistoryEntry where
  hash : String
  message : String
  age : String
  deriving DecidableEq

namespace HistoryEntry

/-- The hash stands before the first bar and the age after the last one after it; a message may hold bars. -/
def ofLine (line : String) : HistoryEntry :=
  let (hash, rest) := Text.cutFirst '|' line.toList
  let (message, age) := Text.cutLast '|' (rest.getD [])
  ⟨.ofList hash, .ofList (message.getD []), .ofList age⟩

def ofText (text : String) : List HistoryEntry :=
  ((Text.lines (Text.trim text)).filter (!Text.allBlank ·)).map ofLine

end HistoryEntry
end ChangeLens
