import ChangeLens.FileDiff
import ChangeLens.Git.Patch
import ChangeLens.Git.Repository
import ChangeLens.Pool

/-! Collecting a change: its files as git lists them, each with its hunks, both versions and recent history.
A version or history that cannot be had is missing from its file. Only the listing can fail, and a ref or path
under which nothing can even be asked for. -/
namespace ChangeLens.Git

inductive CollectError where
  | git (failure : Failure)
  | missingPath (line : MissingPath)
  | badName (fault : BadName)
  | limit (given : Int)

def CollectError.ofRun : RunError → CollectError
  | .failed failure => git failure
  | .unstarted fault => badName fault

/-- What to compare: two refs from where they parted, or a ref and the working tree. -/
def range (base : String) (head : Option String) : String :=
  match head.filter (!·.isEmpty) with
  | some head => base ++ "..." ++ head
  | none => base

def history (r : Repository) (path ref : String) (count : Int) : Asked (List HistoryEntry) := do
  if 0 < count then
    let text ← orMissing (r.log path ref count)
    return (text.map HistoryEntry.ofText).getD []
  else return []

def oldSide (r : Repository) (base : String) (status : Status) (path : String) : Asked (Option String) :=
  if status = .added then pure none else r.contentAt base path

def newSide (r : Repository) (head : Option String) (status : Status) (path : String) : Asked (Option String) :=
  if status = .deleted then pure none else r.content head path

/-- The path under which the old side of a file is looked up. -/
def before (path : String) (oldPath : Option String) : String := (oldPath.filter (!·.isEmpty)).getD path

def collectFile (r : Repository) (base : String) (head : Option String) (historyCount : Int)
    (patches : Keyed Patch.FilePatch) (l : Listed) : Asked FileDiff := do
  let patch := (patches.find? l.path).getD ⟨"", 0, 0⟩
  let old ← oldSide r base l.status (before l.path l.oldPath)
  let new ← newSide r head l.status l.path
  let entries ← history r (before l.path l.oldPath) base historyCount
  return ⟨l.path, l.status, some patch.hunks, l.oldPath, old, new, patch.additions, patch.deletions, entries⟩

/-- The change from `base` to `head`, or to the working tree. -/
def collect (r : Repository) (base : String) (head : Option String) (concurrency historyCount : Int) :
    Traced (Except CollectError ChangeSet) := do
  match ← r.run ["diff", "--name-status", "-M", range base head] with
  | .error e => return .error (.ofRun e)
  | .ok listing =>
    match ← r.run ["diff", "-M", range base head] with
    | .error e => return .error (.ofRun e)
    | .ok rawDiff =>
      match Listed.ofText listing with
      | .error line => return .error (.missingPath line)
      | .ok listed =>
        let file := collectFile r base head historyCount (Patch.byPath rawDiff)
        let run := Pool.run concurrency (fun l => (file l).run.value) listed
        let collected := match run.result with
          | .error (.limit given) => .error (.limit given)
          | .error (.worker fault) => .error (.badName fault)
          | .ok files => .ok ⟨files, rawDiff, base, head⟩
        ⟨collected, run.calls.flatMap fun l => (file l).run.commands⟩

end ChangeLens.Git
