import ChangeLens.Report.Markdown
import Mathlib.Data.List.Perm.Basic
import Mathlib.Data.List.Nodup

/-! Reports on the same files in another order. All parts show the files in the order of their paths, and where these
are distinct that order is the only one; so the text is the same, and where there is none, the action for which there
is no sign is the same. -/
namespace ChangeLens.Report

variable {files others : List FileAnalysis}

theorem pairwise_byPath (files : List FileAnalysis) : (byPath files).Pairwise fun a b => a.path ≤ b.path := by
  have sorted : (byPath files).Pairwise fun a b => decide (a.path ≤ b.path) := List.pairwise_mergeSort
    (fun a b c ab bc => by simpa using String.le_trans (by simpa using ab) (by simpa using bc))
    (fun a b => by simpa using String.le_total a.path b.path) files
  simpa using sorted

theorem byPath_perm (files : List FileAnalysis) : (byPath files).Perm files := List.mergeSort_perm files _

theorem byPath_eq_of_perm (perm : files.Perm others) (distinct : (files.map (·.path)).Nodup) :
    byPath files = byPath others := by
  refine List.Perm.eq_of_pairwise (fun a b here there ab ba => ?_) (pairwise_byPath files) (pairwise_byPath others)
    ((byPath_perm files).trans (perm.trans (byPath_perm others).symm))
  have listed : a ∈ files := (byPath_perm files).mem_iff.mp here
  have other : b ∈ files := perm.mem_iff.mpr ((byPath_perm others).mem_iff.mp there)
  exact List.inj_on_of_nodup_map distinct listed other (String.le_antisymm ab ba)

theorem isOk_mapM {ε α β : Type} (f : α → Except ε β) (xs : List α) :
    (xs.mapM f).isOk = xs.all fun x => (f x).isOk := by
  induction xs with
  | nil => rfl
  | cons x xs ih =>
    rw [List.mapM_cons, List.all_cons, ← ih]
    cases f x with
    | error e => rfl
    | ok y => cases xs.mapM f <;> rfl

theorem isOk_bind_pure {ε α β : Type} (x : Except ε α) (f : α → β) : (x >>= fun a => pure (f a)).isOk = x.isOk := by
  cases x <;> rfl

theorem isOk_sign_eq_false_iff {action : Action} : (sign action).isOk = false ↔ ∃ word, action = .unknown word := by
  cases action <;> simp [sign, Except.isOk, Except.toBool]

/-- The part on structural changes can be written just if there is a sign for each of them. Files without changes are
left out, and they have no change without one. -/
theorem isOk_structuralSection (files : List FileAnalysis) :
    (structuralSection files).isOk = files.all fun f => f.changes.all fun c => (sign c.action).isOk := by
  have shown : ((byPath files).filter (!·.changes.isEmpty)).all (fun f => f.changes.all fun c => (sign c.action).isOk) =
      files.all fun f => f.changes.all fun c => (sign c.action).isOk := by
    rw [List.all_filter, (byPath_perm files).all_eq]
    refine congrArg files.all (funext fun f => ?_)
    cases f.changes <;> simp
  rw [structuralSection, isOk_bind_pure, isOk_mapM, ← shown]
  simp only [isOk_bind_pure, isOk_mapM, changeItem]

/-- Some change has an action for which there is no sign. -/
def Unsigned (files : List FileAnalysis) : Prop := ∃ f ∈ files, ∃ c ∈ f.changes, ∃ word, c.action = .unknown word

theorem isOk_structuralSection_eq_false_iff : (structuralSection files).isOk = false ↔ Unsigned files := by
  rw [isOk_structuralSection]
  simp [isOk_sign_eq_false_iff, Unsigned]

/-- The document can be written just if its part on structural changes can. -/
theorem isOk_markdown (maxDiff : Int) (r : Report) : (markdown maxDiff r).isOk = (structuralSection r.files).isOk := by
  rw [markdown, isOk_bind_pure]

/-- Neither the document nor any part of it depends on the order of the files, if no two have one path. There is no
document, in either order, just if some change has an action without a sign. -/
theorem rendering_order_irrelevant (r : Report) (perm : files.Perm r.files)
    (distinct : (r.files.map (·.path)).Nodup) :
    (∀ maxDiff, markdown maxDiff { r with files } = markdown maxDiff r) ∧
    structuralSection files = structuralSection r.files ∧
    controlFlowSection files = controlFlowSection r.files ∧
    (∀ limit, baseSection files limit = baseSection r.files limit) ∧
    historySection files = historySection r.files ∧
    ((structuralSection r.files).isOk = false ↔ Unsigned r.files) ∧
    ∀ maxDiff, (markdown maxDiff r).isOk = false ↔ Unsigned r.files := by
  have sorted : byPath files = byPath r.files := (byPath_eq_of_perm perm.symm distinct).symm
  have structural : structuralSection files = structuralSection r.files := by simp only [structuralSection, sorted]
  have controlFlow : controlFlowSection files = controlFlowSection r.files := by
    simp only [controlFlowSection, sorted]
  have base (limit : Int) : baseSection files limit = baseSection r.files limit := by simp only [baseSection, sorted]
  have history : historySection files = historySection r.files := by simp only [historySection, sorted]
  have rows : fileRows files = fileRows r.files := by simp only [fileRows, sorted]
  -- The totals that the summary lacks are counted over the files, in whatever order these stand.
  have changes : changeCount { r with files } = r.changeCount := by
    rw [changeCount, changeCount, (perm.flatMap_right (·.changes)).length_eq]
  have totals : overview { r with files } = overview r := by
    simp only [overview, total, changes, perm.length_eq]
  refine ⟨fun maxDiff => ?_, structural, controlFlow, base, history, isOk_structuralSection_eq_false_iff,
    fun maxDiff => ?_⟩
  · simp only [markdown, totals, structural, controlFlow, base, history, rows]
  · rw [isOk_markdown, isOk_structuralSection_eq_false_iff]

/-- Two files with changes. When one of these is said to be moved, there is no document in either order. -/
theorem rendering_order_irrelevant_moved :
    let changed (path : String) (action : Action) : FileAnalysis :=
      ⟨path, .modified, some "python", [⟨path, .function, action, "load", some 1, none⟩], [], ["load"], none, []⟩
    let report (action : Action) : Report :=
      { baseRef := "main", files := [changed "store.py" .removed, changed "main.py" action] }
    let turned (action : Action) : List FileAnalysis := [changed "main.py" action, changed "store.py" .removed]
    (∀ action, (turned action).Perm (report action).files ∧ ((report action).files.map (·.path)).Nodup) ∧
      markdown 80 { report .added with files := turned .added } = markdown 80 (report .added) ∧
      (markdown 80 (report .added)).isOk = true ∧
      markdown 80 { report (.unknown "moved") with files := turned (.unknown "moved") } =
        markdown 80 (report (.unknown "moved")) ∧
      (markdown 80 (report (.unknown "moved"))).isOk = false := by
  intro changed report turned
  have perm (action : Action) : (turned action).Perm (report action).files := .swap ..
  have distinct (action : Action) : ((report action).files.map (·.path)).Nodup := by
    simp [report, changed]
  obtain ⟨same, -, -, -, -, -, fails⟩ := rendering_order_irrelevant (report .added) (perm _) (distinct _)
  obtain ⟨same', -, -, -, -, -, fails'⟩ := rendering_order_irrelevant (report (.unknown "moved")) (perm _) (distinct _)
  refine ⟨fun action => ⟨perm action, distinct action⟩, same 80, ?_, same' 80, (fails' 80).mpr ?_⟩
  · refine Bool.of_not_eq_false (mt (fails 80).mp ?_)
    simp [Unsigned, report, changed]
  · exact ⟨_, .tail _ (.head _), _, .head _, "moved", rfl⟩

end ChangeLens.Report
