import ChangeLens.Report.Sections

/-! A report as a Markdown document. -/
namespace ChangeLens.Report

open Text

def part (title body ifEmpty : String) : List String :=
  ["", "## " ++ title, if body.isEmpty then ifEmpty else body]

def overview (r : Report) : List String :=
  let head := (r.headRef.filter (!·.isEmpty)).getD "working tree"
  ["# Change analysis: " ++ r.baseRef ++ "..." ++ head, "", "_Generated " ++ r.generatedAt ++ "_", "",
    "- Files changed: " ++ toString (r.total "filesChanged" r.files.length),
    "- Additions: " ++ toString (r.total "additions" 0),
    "- Deletions: " ++ toString (r.total "deletions" 0),
    "- Structural changes: " ++ toString (r.total "structuralChanges" r.changeCount)] ++
  (r.graph.map fun g => "- Blast radius: " ++ g.blastRadius.word).toList

def fileRows (files : List FileAnalysis) : String :=
  joinWith "\n" ((byPath files).map fun f => "- " ++ f.path ++ " (" ++ f.status.word ++ ")")

def diffPart (limit : Int) (rawDiff : String) : List String :=
  let diff := truncateDiff limit rawDiff
  ["", "## Diff", if diff.isEmpty then "(empty diff)" else "```diff\n" ++ diff ++ "\n```"]

/-- The whole document; its diff is kept within `maxDiff` characters. -/
def markdown (maxDiff : Int) (r : Report) : Except UnknownAction String := do
  let structural ← structuralSection r.files
  return joinWith "\n" (overview r ++
    part "Recent history" (historySection r.files) "(no prior history)" ++
    part "Base state" (baseSection r.files maxBaseNames) "(new files only, no prior state)" ++
    part "Structural changes" structural "(no structural changes detected)" ++
    part "Control flow context" (controlFlowSection r.files) "(no notable control flow patterns detected)" ++
    part "Dependency graph" (graphSection r.graph) "(no dependency data available)" ++
    part "Files changed" (fileRows r.files) "(none)" ++
    diffPart maxDiff r.rawDiff) ++ "\n"

end ChangeLens.Report
