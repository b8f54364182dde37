import ChangeLens.Config.Settings
import ChangeLens.Dependency.Build
import ChangeLens.FileAnalysis.Session
import ChangeLens.FileIndex
import ChangeLens.Git.Repository
import ChangeLens.Report.Basic

/-! Analysing a whole change: each file on its own, then one graph around all of them. -/
namespace ChangeLens.Analysis

open Git

/-- A graph around some paths as of `head`, or in the working tree. The tracked files and their contents are
both taken from there; a listing that fails counts as empty. -/
def graph (t : Toolchain) (s : Config.Settings) (r : Repository) (paths : List String)
    (head : Option String) : Traced DependencyGraph :=
  let listing := match head with
    | some ref => r.trackedFilesAt ref
    | none => r.trackedFiles
  let content (path : String) := r.content head path
  let codebase : Codebase := {
    tools := t
    tracked := FileIndex.snapshot listing.value.toOption
    content := fun _ path => match (content path).run.value with
      | .ok (some text) => .text text
      | .ok none => .absent
      | .error _ => .unreadable
    bounds := ⟨s.maxReverseDeps, s.secondRingThreshold, s.maxRepoFiles⟩ }
  let built := codebase.build paths ((head.filter (!·.isEmpty)).getD "HEAD")
  ⟨built.graph, listing.commands ++ built.reads.flatMap fun (_, path) => (content path).run.commands⟩

/-- The graph around the files of a change. Without a repository, or without any file, there is none. -/
def graphAround (t : Toolchain) (s : Config.Settings) (r : Option Repository) (c : ChangeSet) :
    Traced (Option DependencyGraph) :=
  match r with
  | some r => if c.files.isEmpty then pure none else some <$> graph t s r (c.files.map (·.path)) c.headRef
  | none => pure none

/-- The report on a change, made in a session that may have been in use before. All files share the session. -/
def reportIn (session : Session) (s : Config.Settings) (generatedAt : String) (r : Option Repository)
    (c : ChangeSet) : Traced Report := do
  let files := (session.analyzeAll s.guardConditionMax c.files).result
  let graph ← graphAround session.tools s r c
  let report : Report := ⟨generatedAt, c.baseRef, c.headRef, files, c.rawDiff, graph, []⟩
  return { report with summary := [("filesChanged", files.length), ("additions", c.additions),
    ("deletions", c.deletions), ("structuralChanges", report.changeCount)] }

def report (t : Toolchain) (s : Config.Settings) (generatedAt : String) (r : Option Repository)
    (c : ChangeSet) : Traced Report :=
  reportIn (Session.start t) s generatedAt r c

end ChangeLens.Analysis
