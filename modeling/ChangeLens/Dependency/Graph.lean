import ChangeLens.Import.Clause

/-! The dependency graph around a change: what the changed files import, what imports them, and what imports
those importers. -/
namespace ChangeLens

/-- One import: `source` takes `symbols` from `target`, which it calls `specifier`. -/
structure Edge where
  source : String
  target : String
  specifier : String
  symbols : List String := []
  deriving DecidableEq

inductive BlastRadius where
  | selfContained
  | contained
  | wide
  deriving DecidableEq

def BlastRadius.word : BlastRadius → String
  | selfContained => "self-contained"
  | contained => "contained"
  | wide => "wide"

structure DependencyGraph where
  forward : List Edge := []
  reverse : List Edge := []
  secondRing : List Edge := []
  filesScanned : Int := 0
  scanMilliseconds : Int := 0

namespace DependencyGraph

def sources (edges : List Edge) : List String := (edges.map (·.source)).eraseDups

def dependents (g : DependencyGraph) : List String := sources g.reverse

def secondDependents (g : DependencyGraph) : List String := sources g.secondRing

def blastRadius (g : DependencyGraph) : BlastRadius :=
  if g.reverse.isEmpty then .selfContained
  else if g.secondRing.isEmpty then .contained
  else .wide

end DependencyGraph
end ChangeLens
