import ChangeLens.Dependency.Graph
import ChangeLens.FileAnalysis

/-! The report on a change: its files, the graph around them, and totals. -/
namespace ChangeLens

structure Report where
  generatedAt : String := ""
  baseRef : String := ""
  headRef : Option String := none
  files : List FileAnalysis := []
  rawDiff : String := ""
  graph : Option DependencyGraph := none
  /-- Totals by name. -/
  summary : List (String × Int) := []

namespace Report

def changeCount (r : Report) : Int := (r.files.flatMap (·.changes)).length

/-- A total, or what stands for it if the summary lacks it. -/
def total (r : Report) (name : String) (otherwise : Int) : Int := (r.summary.lookup name).getD otherwise

def byPath (files : List FileAnalysis) : List FileAnalysis := files.mergeSort fun a b => a.path ≤ b.path

end Report
end ChangeLens
