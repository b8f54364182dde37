import ChangeLens.JsonValue
import ChangeLens.Report.Basic

/-! A report as a JSON value. The raw diff is no part of it. -/
namespace ChangeLens

open JsonValue

def Change.toJson (c : Change) : JsonValue :=
  object ([("file", text c.file), ("type", text c.kind.word), ("action", text c.action.word),
      ("name", text c.name)] ++
    (c.startLine.map fun line => ("startLine", number line)).toList ++
    ((c.detail.filter (!·.isEmpty)).map fun d => ("detail", text d)).toList)

def Annotation.toJson (a : Annotation) : JsonValue :=
  object [("functionName", text a.functionName), ("line", number a.line), ("kind", text a.pattern.word),
    ("description", text a.description)]

def HistoryEntry.toJson (h : HistoryEntry) : JsonValue :=
  object [("hash", text h.hash), ("message", text h.message), ("age", text h.age)]

def FileAnalysis.toJson (f : FileAnalysis) : JsonValue :=
  object [("path", text f.path), ("status", text f.status.word), ("language", ofOption text f.language),
    ("structuralChanges", array (f.changes.map (·.toJson))),
    ("controlFlowAnnotations", array (f.annotations.map (·.toJson))),
    ("baseDeclarationNames", texts f.baseNames), ("rawDiffText", ofOption text f.rawDiff),
    ("recentHistory", array (f.history.map (·.toJson)))]

def Edge.toJson (e : Edge) : JsonValue :=
  object [("from", text e.source), ("to", text e.target), ("specifier", text e.specifier),
    ("symbols", texts e.symbols)]

def DependencyGraph.toJson (g : DependencyGraph) : JsonValue :=
  object [("forwardDeps", array (g.forward.map (·.toJson))), ("reverseDeps", array (g.reverse.map (·.toJson))),
    ("secondRingDeps", array (g.secondRing.map (·.toJson))), ("repoFilesScanned", number g.filesScanned),
    ("scanTimeMs", number g.scanMilliseconds), ("blastRadius", text g.blastRadius.word)]

def Report.toJson (r : Report) : JsonValue :=
  object [("generatedAt", text r.generatedAt), ("baseRef", text r.baseRef),
    ("headRef", ofOption text r.headRef),
    ("summary", object (r.summary.map fun (name, n) => (name, number n))),
    ("files", array (r.files.map (·.toJson))),
    ("dependencyGraph", ofOption DependencyGraph.toJson r.graph)]

end ChangeLens
