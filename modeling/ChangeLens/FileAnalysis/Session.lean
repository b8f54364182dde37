import ChangeLens.FileAnalysis

/-! Analysing files one after the other with one session, which asks for each grammar once. -/
namespace ChangeLens

/-- What is found in a file: how its declarations changed, some notes, and which declarations it had. -/
def FileAnalysis.found (f : FileDiff) (language : String) (sides : List Declaration × List Declaration)
    (annotations : List Annotation) : FileAnalysis :=
  let (old, new) := sides
  { unread f (some language) with
    changes := Change.annotateRelated (Change.between f.path f.status old new) old
    annotations := annotations
    baseNames := old.map (·.label) }

namespace Session

def declarations (s : Session) (source : Option String) (language : String) : Step (List Declaration) :=
  match source.filter (!Text.allBlank ·) with
  | none => ⟨[], [], s⟩
  | some text => (s.parse language text).map fun
    | .tree root => Extraction.ofRoot (s.tools.registry.get? language) root
    | _ => []

def declarationsOf (s : Session) (v : Extraction.Versions) : Step (List Declaration × List Declaration) :=
  match (v.language.filter (!·.isEmpty)).or (s.languageFor? v.path).result with
  | none => ⟨([], []), [], s⟩
  | some language =>
    (s.declarations v.oldText language).andThen fun old s => (s.declarations v.newText language).map (old, ·)

def annotate (s : Session) (budget : Int) (source : Option String) (language : String) (changed : List Int) :
    Step (List Annotation) :=
  let lines := sortDistinct (· ≤ ·) changed
  match source.filter (!Text.allBlank ·) with
  | none => ⟨[], [], s⟩
  | some text =>
    if lines.isEmpty then ⟨[], [], s⟩
    else (s.parse language text).map fun
      | .tree root => ControlFlow.annotateRoot budget lines root
      | _ => []

/-- Analyses one file. The changed lines are read when the declarations have been found; if they cannot be read,
the declarations are dropped. -/
def analyze (s : Session) (budget : Int) (f : FileDiff) : Step FileAnalysis :=
  let language := ((s.languageFor? f.path).result).or
    ((f.oldPath.filter (!·.isEmpty)).bind fun path => (s.languageFor? path).result)
  match language with
  | none => ⟨.unread f none, [], s⟩
  | some id =>
    (s.declarationsOf (f.versions (some id))).andThen fun sides s =>
      if f.status = .deleted then ⟨.found f id sides [], [], s⟩
      else match FileAnalysis.changedLines? f with
        | none => ⟨.unread f (some id), [], s⟩
        | some lines => (s.annotate budget f.newContent id lines).map (.found f id sides)

def analyzeAll (s : Session) (budget : Int) : List FileDiff → Step (List FileAnalysis)
  | [] => ⟨[], [], s⟩
  | f :: files =>
    (s.analyze budget f).andThen fun analysis s => (s.analyzeAll budget files).map (analysis :: ·)

end Session
end ChangeLens
