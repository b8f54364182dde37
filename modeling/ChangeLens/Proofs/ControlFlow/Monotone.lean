import ChangeLens.Proofs.ControlFlow.Attribution
import Mathlib.Data.List.Flatten

/-! Notes against changed lines. The notes on a text with some changed lines are among those on the same text with
more of them, in the same order; so they depend on the set of the changed lines alone, not on how it is listed. -/
namespace ChangeLens.ControlFlow

/-- Every span that holds one of `lines` holds one of `more`. -/
def Wider (lines more : List Int) : Prop :=
  ∀ start stop, touches start stop lines = true → touches start stop more = true

theorem wider_sortDistinct {changed more : List Int} (sub : ∀ line ∈ changed, line ∈ more) :
    Wider (sortDistinct (· ≤ ·) changed) (sortDistinct (· ≤ ·) more) := by
  intro start stop touched
  obtain ⟨line, listed, inside⟩ := touches_sortDistinct_iff.mp touched
  exact touches_sortDistinct_iff.mpr ⟨line, sub line listed, inside⟩

variable {lines more : List Int}

/-- A guard is noted whatever the lines are, a try block as soon as one of them lies in it. -/
theorem Wider.annotateStatement (wider : Wider lines more) {budget : Int} {name : String} {statement : Node}
    {note : Annotation} (noted : annotateStatement budget lines name statement = some note) :
    annotateStatement budget more name statement = some note := by
  simp only [ControlFlow.annotateStatement] at noted ⊢
  by_cases branches : ifTypes.contains (unwrapStatement statement).type
  · rwa [if_pos branches] at noted ⊢
  · rw [if_neg branches] at noted ⊢
    split at noted
    next tries =>
      obtain ⟨isTry, touched⟩ := Bool.and_eq_true_iff.mp tries
      rw [if_pos (Bool.and_eq_true_iff.mpr ⟨isTry, wider _ _ touched⟩)]
      exact noted
    next => contradiction

theorem Wider.annotateFunction (wider : Wider lines more) (budget : Int) (f : Placed) :
    (annotateFunction budget lines f).Sublist (annotateFunction budget more f) := by
  unfold ControlFlow.annotateFunction
  cases f.node.child? "body" with
  | none => exact List.Sublist.refl []
  | some body =>
    simp only [List.filterMap_eq_flatMap_toList]
    apply List.Sublist.flatMap_right
    intro statement _
    cases noted : ControlFlow.annotateStatement budget lines (functionName f) statement with
    | none => exact List.nil_sublist _
    | some note =>
      rw [wider.annotateStatement noted]

theorem Wider.annotateRoot (wider : Wider lines more) (budget : Int) (root : Node) :
    (annotateRoot budget lines root).Sublist (annotateRoot budget more root) := by
  unfold ControlFlow.annotateRoot
  have kept : ((functions root).filter fun f => touches f.node.startLine f.node.endLine lines).Sublist
      ((functions root).filter fun f => touches f.node.startLine f.node.endLine more) :=
    List.monotone_filter_right _ fun f touched => wider _ _ touched
  exact (List.Sublist.flatMap_right _ fun f _ => wider.annotateFunction budget f).trans
    (kept.flatMap (ControlFlow.annotateFunction budget more))

def parsedRoot? (t : Toolchain) (source : Option String) (language : String) : Option Node :=
  (source.filter (!Text.allBlank ·)).bind fun text =>
    match t.parse language text with
    | .tree root => some root
    | _ => none

/-- That there are no changed lines need not be asked: without any, no function is touched. -/
theorem annotate_eq (t : Toolchain) (budget : Int) (source : Option String) (language : String)
    (changed : List Int) :
    annotate t budget source language changed =
      ((parsedRoot? t source language).map (annotateRoot budget (sortDistinct (· ≤ ·) changed))).getD [] := by
  unfold annotate parsedRoot?
  cases source.filter (!Text.allBlank ·) with
  | none => rfl
  | some text =>
    cases parsed : t.parse language text with
    | failed => simp [parsed]
    | rootless => simp [parsed]
    | tree root =>
      by_cases empty : sortDistinct (· ≤ ·) changed = []
      · simp [parsed, empty, annotateRoot_nil]
      · simp [parsed, empty]

theorem annotate_sublist (t : Toolchain) (budget : Int) (source : Option String) (language : String)
    {changed more : List Int} (sub : ∀ line ∈ changed, line ∈ more) :
    (annotate t budget source language changed).Sublist (annotate t budget source language more) := by
  rw [annotate_eq, annotate_eq]
  cases parsedRoot? t source language with
  | none => exact List.Sublist.refl []
  | some root => exact (wider_sortDistinct sub).annotateRoot budget root

/-- More changed lines keep every note in its order, and lists of the same lines give the same notes. -/
theorem annotate_monotone (t : Toolchain) (budget : Int) (source : Option String) (language : String)
    {changed more : List Int} (sub : ∀ line ∈ changed, line ∈ more) :
    (annotate t budget source language changed).Sublist (annotate t budget source language more) ∧
      ((∀ line ∈ more, line ∈ changed) →
        annotate t budget source language changed = annotate t budget source language more) := by
  have grows := annotate_sublist t budget source language sub
  refine ⟨grows, fun back => ?_⟩
  exact grows.antisymm (annotate_sublist t budget source language back)

def twoTries : SpanNode :=
  ⟨"module", true, none, 0, 30, [
    ⟨"function_definition", true, none, 0, 30, [
      ⟨"identifier", true, some "name", 4, 5, []⟩,
      ⟨"block", true, some "body", 9, 30, [
        ⟨"try_statement", true, none, 9, 19, []⟩,
        ⟨"try_statement", true, none, 20, 30, []⟩]⟩]⟩]⟩

theorem annotate_monotone_twoTries :
    let source := "def f():\n try: a()\n\n try: b()\n"
    let tools : Toolchain := ⟨.standard, .everything, fun _ _ => .tree (twoTries.toNode source)⟩
    (∀ line ∈ [(2 : Int)], line ∈ [(4 : Int), 2, 9, 2]) ∧
      (annotate tools 40 (some source) "python" [2]).Sublist
        (annotate tools 40 (some source) "python" [4, 2, 9, 2]) := by
  intro source tools
  have sub : ∀ line ∈ [(2 : Int)], line ∈ [(4 : Int), 2, 9, 2] := by simp
  exact ⟨sub, (annotate_monotone tools 40 (some source) "python" sub).1⟩

end ChangeLens.ControlFlow
