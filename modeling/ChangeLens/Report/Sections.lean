import ChangeLens.Git.Patch
import ChangeLens.Report.Basic

/-! The parts of a report as plain text, one for each question that a reader asks of a change. Files are shown
in the order of their paths, and files about which there is nothing to say are left out. -/
namespace ChangeLens.Report

open Text

structure UnknownAction where
  word : String
  deriving DecidableEq

def sign : Action → Except UnknownAction String
  | .added => .ok "+"
  | .removed => .ok "-"
  | .modified => .ok "~"
  | .unknown word => .error ⟨word⟩

def changeItem (c : Change) : Except UnknownAction String := do
  let detail := match c.detail.filter (!·.isEmpty) with
    | some d => " [" ++ d ++ "]"
    | none => ""
  return (← sign c.action) ++ c.name ++ " (" ++ c.kind.word ++ ")" ++ detail

def structuralSection (files : List FileAnalysis) : Except UnknownAction String := do
  let shown := (byPath files).filter (!·.changes.isEmpty)
  let rows ← shown.mapM fun f => do
    return "- " ++ f.path ++ " (" ++ f.status.word ++ "): " ++ joinWith ", " (← f.changes.mapM changeItem)
  return joinWith "\n" rows

def block (path : String) (entries : List String) : String := "- " ++ path ++ ":\n" ++ joinWith "\n" entries

def annotationEntry (a : Annotation) : String :=
  "  - " ++ a.functionName ++ "() line " ++ toString a.line ++ ": " ++ a.pattern.word ++ " — " ++ a.description

def controlFlowSection (files : List FileAnalysis) : String :=
  joinWith "\n" <| ((byPath files).filter (!·.annotations.isEmpty)).map fun f =>
    block f.path (f.annotations.map annotationEntry)

def historyEntry (h : HistoryEntry) : String := "  - " ++ h.hash ++ " " ++ h.message ++ " (" ++ h.age ++ ")"

def historySection (files : List FileAnalysis) : String :=
  joinWith "\n" <| ((byPath files).filter (!·.history.isEmpty)).map fun f =>
    block f.path (f.history.map historyEntry)

def maxBaseNames : Int := 20

/-- The declarations that a file had before, up to a limit. A negative limit leaves the last ones out. -/
def baseNamesShown (limit : Int) (names : List String) : String :=
  let shown := joinWith ", " (takeSigned limit names)
  if (names.length : Int) > limit
  then shown ++ ", ... and " ++ toString ((names.length : Int) - limit) ++ " more" else shown

def baseSection (files : List FileAnalysis) (limit : Int) : String :=
  joinWith "\n" <| ((byPath files).filter (!·.baseNames.isEmpty)).map fun f =>
    "- " ++ f.path ++ " — existing declarations: " ++ baseNamesShown limit f.baseNames

def maxSecondRing : Nat := 10

def importerRow (e : Edge) : String :=
  "    - " ++ e.source ++
    (if e.symbols.isEmpty then "" else " (uses: " ++ joinWith ", " e.symbols ++ ")")

def reverseParts (g : DependencyGraph) : List String :=
  if g.reverse.isEmpty then ["No other files import the changed files — blast radius is contained."]
  else
    "### Files that import changed files (may be affected):" ::
      (Keyed.group (g.reverse.map fun e => (e.target, importerRow e))).entries.map fun (target, rows) =>
        "- " ++ target ++ " is imported by " ++ toString rows.length ++ " file(s):\n" ++ joinWith "\n" rows

def forwardParts (g : DependencyGraph) : List String :=
  if g.forward.isEmpty then []
  else
    "\n### Dependencies of changed files:" ::
      (Keyed.group (g.forward.map fun e => (e.source, e.target))).entries.map fun (source, targets) =>
        "- " ++ source ++ " imports: " ++ joinWith ", " targets

def secondRingParts (g : DependencyGraph) : List String :=
  if g.secondRing.isEmpty then []
  else
    let files := g.secondDependents
    ["\n### Second-ring impact (" ++ toString g.secondRing.length ++ " files import the affected files above)",
      joinWith "\n" ((files.take maxSecondRing).map ("- " ++ ·))] ++
    (if files.length > maxSecondRing
      then ["- ... and " ++ toString (files.length - maxSecondRing) ++ " more"] else [])

def graphSection : Option DependencyGraph → String
  | none => ""
  | some g => joinWith "\n" (reverseParts g ++ forwardParts g ++ secondRingParts g)

def maxDiffLength : Int := 4000

/-- What is put where whole sections were left out. -/
def sectionsCut : List Char := "\n... (diff truncated)".toList

/-- Adds sections one by one as long as they fit; the first that does not ends it. -/
def fitSections (limit : Int) : (kept : List Char) → List (List Char) → List Char
  | kept, [] => kept
  | kept, s :: ss =>
    let chunk := Patch.sectionMark ++ s
    if (kept.length : Int) + chunk.length > limit then kept ++ sectionsCut
    else fitSections limit (kept ++ chunk) ss

/-- A diff within a limit of characters: as many whole sections as fit, or, if not even one does, its
beginning. -/
def truncateDiff (limit : Int) (diff : String) : String :=
  let cs := diff.toList
  if (cs.length : Int) ≤ limit then diff
  else
    let kept := fitSections limit [] (Patch.sections diff)
    if kept.isEmpty || kept == sectionsCut then .ofList (takeSigned limit cs) ++ "\n... (truncated)"
    else .ofList kept

end ChangeLens.Report
