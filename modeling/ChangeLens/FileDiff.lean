import ChangeLens.Extraction
import ChangeLens.Git.Listing
import ChangeLens.Text.Quoted

/-! One changed file with all that is known of it, and the set of them that makes up a change. -/
namespace ChangeLens

structure FileDiff where
  path : String
  status : Status
  /-- The hunks of the file; a record from outside may lack them. -/
  hunks : Option String := some ""
  oldPath : Option String := none
  oldContent : Option String := none
  newContent : Option String := none
  additions : Int := 0
  deletions : Int := 0
  history : List HistoryEntry := []

structure UnknownStatus where
  word : String
  deriving DecidableEq

def UnknownStatus.message (s : UnknownStatus) : String := "Unknown file status: " ++ Text.quoted s.word

namespace FileDiff

def check (f : FileDiff) : Except UnknownStatus FileDiff :=
  match f.status with
  | .unknown word => .error ⟨word⟩
  | _ => .ok f

def versions (f : FileDiff) (language : Option String) : Extraction.Versions :=
  ⟨f.path, language, f.oldContent, f.newContent⟩

end FileDiff

structure ChangeSet where
  files : List FileDiff
  rawDiff : String := ""
  baseRef : String := ""
  /-- The ref that the change leads to; without one it leads to the working tree. -/
  headRef : Option String := none

namespace ChangeSet

def additions (c : ChangeSet) : Int := c.files.foldr (·.additions + ·) 0
def deletions (c : ChangeSet) : Int := c.files.foldr (·.deletions + ·) 0

end ChangeSet
end ChangeLens
