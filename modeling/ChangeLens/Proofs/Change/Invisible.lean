import ChangeLens.FileAnalysis
import ChangeLens.Proofs.Change.Surviving

/-! Edits that leave the declarations alone. What stands between declarations may come and go, and may move them
about: as long as the nodes that declare something are the same up to their places, both versions have the same
declarations up to their lines, and the analysis of the file reports no change. If no name is declared twice, the
declarations may change their order as well. -/
namespace ChangeLens

namespace FileAnalysis

open Extraction Declaration

variable {t : Toolchain} {budget : Int} {f : FileDiff}

/-- The versions of a file are read in its language, or they are not read at all. -/
theorem ofVersions_languageOf {language : String} (known : languageOf t f = some language) :
    ofVersions t (f.versions (some language)) = ([], []) ∨
      ofVersions t (f.versions (some language)) =
        (ofSource t f.oldContent language, ofSource t f.newContent language) := by
  by_cases named : language = ""
  · -- A language without a name counts as none given, and then the path decides again.
    subst named
    cases byPath : t.languageFor? f.path with
    | none => exact .inl (by simp [ofVersions, FileDiff.versions, Option.filter_some, byPath])
    | some found =>
      obtain rfl : found = "" := by simpa [languageOf, byPath] using known
      exact .inr (by simp [ofVersions, FileDiff.versions, Option.filter_some, byPath])
  · exact .inr (by simp [ofVersions, FileDiff.versions, Option.filter_some, named])

/-- The analysis reports nothing if each name has the same text in both versions. -/
theorem changes_eq_nil (whole : f.status ≠ .added ∧ f.status ≠ .deleted)
    (same : ∀ language, languageOf t f = some language →
      textOf (ofSource t f.oldContent language) = textOf (ofSource t f.newContent language)) :
    (of t budget f).changes = [] := by
  rw [of]
  split
  next language lines known _ =>
    have unchanged : Change.between f.path f.status (ofVersions t (f.versions (some language))).1
        (ofVersions t (f.versions (some language))).2 = [] := by
      refine (Change.between_editScript whole f.path _ _).eq_nil_iff.mpr ?_
      rcases ofVersions_languageOf known with none | both
      · rw [none]
      · rw [both]
        exact same language known
    simp [Change.annotateRelated, unchanged]
  next => rfl

/-- What a toolchain makes of a text that is not blank. -/
structure Reads (t : Toolchain) (language text : String) (root : Node) : Prop where
  written : Text.allBlank text = false
  parsed : t.parse language text = .tree root

theorem Reads.ofSource_eq {language text : String} {root : Node} (reads : Reads t language text root) :
    ofSource t (some text) language = ofRoot (t.registry.get? language) root := by
  simp [ofSource, Option.filter_some, reads.written, reads.parsed]

/-- The nodes that declare something in a language, apart from where they stand. -/
def declaringShapes (t : Toolchain) (language : String) (root : Node) : List Node :=
  (declaring (t.registry.get? language) root).map Node.unplaced

theorem Reads.map_unplaced {language text : String} {root : Node} (reads : Reads t language text root) :
    (ofSource t (some text) language).map Declaration.unplaced =
      (declaringShapes t language root).flatMap (declaredBy (t.registry.get? language)) := by
  rw [reads.ofSource_eq, map_unplaced_ofRoot, declaringShapes]

def Unchanged (t : Toolchain) (language oldText newText : String) : Prop :=
  ∀ budget f, languageOf t f = some language → f.oldContent = some oldText → f.newContent = some newText →
    f.status = .modified ∨ f.status = .renamed → (of t budget f).changes = []

theorem unchanged_of_textOf {language oldText newText : String}
    (same : textOf (ofSource t (some oldText) language) = textOf (ofSource t (some newText) language)) :
    Unchanged t language oldText newText := by
  intro budget f known old new status
  refine changes_eq_nil (by rcases status with status | status <;> simp [status]) fun other found => ?_
  obtain rfl := Option.some.inj (known.symm.trans found)
  rw [old, new, same]

/-- Only the nodes that declare something count, and of them only what they are and not where. This holds in every
registry, with a table for the language or without one. -/
theorem declarations_alone_count {language oldText newText : String} {oldRoot newRoot : Node}
    (old : Reads t language oldText oldRoot) (new : Reads t language newText newRoot) :
    (declaringShapes t language oldRoot = declaringShapes t language newRoot →
      (ofSource t (some oldText) language).map unplaced = (ofSource t (some newText) language).map unplaced ∧
        Unchanged t language oldText newText) ∧
      ((declaringShapes t language oldRoot).Perm (declaringShapes t language newRoot) →
        ((ofSource t (some oldText) language).map (·.name)).Nodup → Unchanged t language oldText newText) := by
  constructor
  · intro same
    have declarations : (ofSource t (some oldText) language).map unplaced =
        (ofSource t (some newText) language).map unplaced := by
      rw [old.map_unplaced, new.map_unplaced, same]
    refine ⟨declarations, unchanged_of_textOf ?_⟩
    rw [← textOf_unplaced, declarations, textOf_unplaced]
  · intro reordered distinct
    have declarations : ((ofSource t (some oldText) language).map unplaced).Perm
        ((ofSource t (some newText) language).map unplaced) := by
      rw [old.map_unplaced, new.map_unplaced]
      exact reordered.flatMap_right _
    exact unchanged_of_textOf (textOf_eq_of_perm_unplaced declarations distinct)

def cachedTotal (line : Nat) : Node :=
  ⟨"decorated_definition", true, none, "@cached\ndef total():\n    return 1", line, line + 2, [
    ⟨"decorator", true, none, "@cached", line, line, []⟩,
    ⟨"function_definition", true, some "definition", "def total():\n    return 1", line + 1, line + 2, [
      ⟨"identifier", true, some "name", "total", line + 1, line + 1, []⟩]⟩]⟩

def limit (line : Nat) : Node :=
  ⟨"expression_statement", true, none, "limit = 3", line, line, [
    ⟨"assignment", true, none, "limit = 3", line, line, [
      ⟨"identifier", true, some "left", "limit", line, line, []⟩]⟩]⟩

def comment (line : Nat) : Node := ⟨"comment", true, none, "# sums", line, line, []⟩

def rootOf (text : String) (children : List Node) : Node := ⟨"module", true, none, text, 1, 6, children⟩

def firstText : String := "@cached\ndef total():\n    return 1\nlimit = 3\n"

def commentedText : String := "# sums\n@cached\ndef total():\n    return 1\nlimit = 3\n"

def reorderedText : String := "limit = 3\n# sums\n@cached\ndef total():\n    return 1\n"

def firstRoot : Node := rootOf firstText [cachedTotal 1, limit 4]

def commentedRoot : Node := rootOf commentedText [comment 1, cachedTotal 2, limit 5]

def reorderedRoot : Node := rootOf reorderedText [limit 1, comment 2, cachedTotal 3]

def sumTools : Toolchain where
  registry := .standard
  shelf := .everything
  parser _ text :=
    if text = firstText then .tree firstRoot
    else if text = commentedText then .tree commentedRoot
    else if text = reorderedText then .tree reorderedRoot
    else .failed

theorem reads_first : Reads sumTools "python" firstText firstRoot := ⟨by decide, by rfl⟩

theorem reads_commented : Reads sumTools "python" commentedText commentedRoot := ⟨by decide, by rfl⟩

theorem reads_reordered : Reads sumTools "python" reorderedText reorderedRoot := ⟨by decide, by rfl⟩

def sumDiff (newText : String) : FileDiff where
  path := "sums.py"
  status := .renamed
  hunks := none
  oldPath := some "total.py"
  oldContent := some firstText
  newContent := some newText

theorem declarations_alone_count_sums :
    let shapes := declaringShapes sumTools "python"
    let declarations text := ofSource sumTools (some text) "python"
    Reads sumTools "python" firstText firstRoot ∧ Reads sumTools "python" commentedText commentedRoot ∧
      Reads sumTools "python" reorderedText reorderedRoot ∧
      shapes firstRoot = shapes commentedRoot ∧ (shapes firstRoot).Perm (shapes reorderedRoot) ∧
      (declarations firstText).map (·.name) = ["total", "limit"] ∧
      (declarations firstText).map unplaced = (declarations commentedText).map unplaced ∧
      (of sumTools 80 (sumDiff commentedText)).changes = [] ∧
      (of sumTools 80 (sumDiff reorderedText)).changes = [] := by
  intro shapes declarations
  have inPlace : shapes firstRoot = shapes commentedRoot := by rfl
  have first : shapes firstRoot = [(cachedTotal 1).unplaced, (limit 4).unplaced] := by rfl
  have last : shapes reorderedRoot = [(limit 1).unplaced, (cachedTotal 3).unplaced] := by rfl
  have swapped : (shapes firstRoot).Perm (shapes reorderedRoot) := by
    rw [first, last]
    exact .swap (limit 1).unplaced (cachedTotal 1).unplaced []
  have names : (declarations firstText).map (·.name) = ["total", "limit"] := by rfl
  have byPath : sumTools.languageFor? "sums.py" = some "python" := by rfl
  have python (text : String) : languageOf sumTools (sumDiff text) = some "python" := by
    simp [languageOf, sumDiff, byPath]
  obtain ⟨same, commented⟩ := (declarations_alone_count reads_first reads_commented).1 inPlace
  have reordered := (declarations_alone_count reads_first reads_reordered).2 swapped (names ▸ by decide)
  exact ⟨reads_first, reads_commented, reads_reordered, inPlace, swapped, names, same,
    commented 80 (sumDiff commentedText) (python _) rfl rfl (.inr rfl),
    reordered 80 (sumDiff reorderedText) (python _) rfl rfl (.inr rfl)⟩

end FileAnalysis
end ChangeLens
