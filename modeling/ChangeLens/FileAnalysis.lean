import ChangeLens.Change.Related
import ChangeLens.ControlFlow.Annotation
import ChangeLens.FileDiff
import ChangeLens.Git.Patch

/-! What is found out about one changed file: its structural changes, notes on the functions it touches, and
the declarations it had before. -/
namespace ChangeLens

structure FileAnalysis where
  path : String
  status : Status
  language : Option String
  changes : List Change := []
  annotations : List Annotation := []
  /-- The labels of the declarations before the change. -/
  baseNames : List String := []
  rawDiff : Option String := some ""
  history : List HistoryEntry := []

namespace FileAnalysis

def unread (f : FileDiff) (language : Option String) : FileAnalysis :=
  { path := f.path, status := f.status, language := language, rawDiff := f.hunks, history := f.history }

/-- The language of a file by its path, or else by the path it had before. -/
def languageOf (t : Toolchain) (f : FileDiff) : Option String :=
  (t.languageFor? f.path).or ((f.oldPath.filter (!·.isEmpty)).bind t.languageFor?)

/-- The lines that a file's hunks change. A deleted file has no new side, so its hunks are not read; for any
other file it is a failure if there are none, or none that can be read. -/
def changedLines? (f : FileDiff) : Option (List Int) :=
  if f.status = .deleted then some []
  else (f.hunks.bind fun hunks => (Patch.changedLines hunks).toOption).map (·.map Int.ofNat)

/-- Analyses one file. If that fails nothing is found, and what is known without it stays. -/
def of (t : Toolchain) (budget : Int) (f : FileDiff) : FileAnalysis :=
  let language := languageOf t f
  match language, changedLines? f with
  | some id, some lines =>
    let (old, new) := Extraction.ofVersions t (f.versions (some id))
    { unread f language with
      changes := Change.annotateRelated (Change.between f.path f.status old new) old
      annotations :=
        if f.status = .deleted then [] else ControlFlow.annotate t budget f.newContent id lines
      baseNames := old.map (·.label) }
  | _, _ => unread f language

end FileAnalysis
end ChangeLens
