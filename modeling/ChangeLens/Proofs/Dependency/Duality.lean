import ChangeLens.Proofs.Dependency.Order
import Mathlib

/-! Edges seen from both ends. What a changed file imports from another one is what the other one, were it the changed
file, would find in the first. The two are found on separate ways: a forward edge comes from reading the one changed
file, a reverse edge from the scan of all candidates; they agree where the first way scans the text as well. -/
namespace ChangeLens.Codebase

variable {c : Codebase} {ref a b : String}

/-- The ways in which reading a changed file comes down to scanning its text. -/
inductive Untreed (c : Codebase) (ref path : String) (l : Language) : Prop
  | noReader : l.family ∉ Import.parsedFamilies → Untreed c ref path l
  | noGrammar : c.tools.available l.id = false → Untreed c ref path l
  | noTree : (∀ text, c.content ref path = .text text → ∀ root, c.tools.parser l.id text ≠ .tree root) →
      Untreed c ref path l

theorem imports_of_untreed {text : String} (untreed : ∀ l, c.tools.registry.forPath? a = some l → c.Untreed ref a l)
    (content : c.content ref a = .text text) : c.imports text a = c.scannedImports text a := by
  unfold imports
  cases language : c.tools.registry.forPath? a with
  | none => rfl
  | some l =>
    have noTree : Import.parsedFamilies.contains l.family = true → ∀ root, c.tools.parse l.id text ≠ .tree root := by
      intro reader root
      cases untreed l language with
      | noReader outside => exact absurd (List.contains_iff_mem.mp reader) outside
      | noGrammar missing => simp [Toolchain.parse, missing]
      | noTree never =>
        unfold Toolchain.parse
        split
        · exact never text content root
        · simp
    by_cases reader : Import.parsedFamilies.contains l.family = true
    · simp only [reader, if_true]
      cases parsed : c.tools.parse l.id text with
      | tree root => exact absurd parsed (noTree reader root)
      | failed => rfl
      | rootless => rfl
    · simp only [reader, if_false, Bool.false_eq_true]

/-- Read on its own, such a file has the edges that a scan finds in it, those to itself apart. -/
theorem forward_singleton (untreed : ∀ l, c.tools.registry.forPath? a = some l → c.Untreed ref a l) :
    c.forward ref [a] = (c.edgesOf a (c.lightImports ref a)).filter (·.target ≠ a) := by
  unfold forward lightImports
  rw [List.flatMap_singleton]
  cases content : c.content ref a with
  | absent => rfl
  | unreadable => rfl
  | text text =>
    by_cases empty : text = ""
    · simp [Content.text?, Option.filter, empty, scannedImports, Import.ofText_empty, edgesOf]
    · have read : (Content.text text).text?.filter (!·.isEmpty) = some text := by
        simp [Content.text?, Option.filter, empty]
      simp only [read, imports_of_untreed untreed content]
      exact List.filter_congr fun e _ => by simp [bne, beq_eq_decide]

theorem filter_edgesInto {into : Finset String} {files : List String} (distinct : files.Nodup) (member : a ∈ files) :
    (c.edgesInto ref into files).filter (·.source = a) =
      (c.edgesOf a (c.lightImports ref a)).filter (·.target ∈ into) := by
  induction files with
  | nil => contradiction
  | cons file files ih =>
    obtain ⟨fresh, distinct⟩ := List.nodup_cons.mp distinct
    have sources : ∀ e ∈ (c.edgesOf file (c.lightImports ref file)).filter (·.target ∈ into), e.source = file := by
      intro e edge
      exact (mem_edgesOf (List.mem_of_mem_filter edge)).1
    rw [edgesInto_cons, List.filter_append]
    by_cases same : file = a
    · -- It is listed once, so the files after it give no edge from it.
      subst same
      have none : (c.edgesInto ref into files).filter (·.source = file) = [] := by
        apply List.filter_eq_nil_iff.mpr
        intro e edge
        have := (mem_edgesInto edge).1
        simp only [decide_eq_true_eq]
        rintro rfl
        exact fresh this
      rw [none, List.append_nil, List.filter_eq_self]
      intro e edge
      simpa using sources e edge
    · have none : ((c.edgesOf file (c.lightImports ref file)).filter (·.target ∈ into)).filter (·.source = a) = [] := by
        apply List.filter_eq_nil_iff.mpr
        intro e edge
        simpa [sources e edge] using same
      rw [none, List.nil_append]
      exact ih distinct ((List.mem_cons.mp member).resolve_left (Ne.symm same))

theorem idxOf_filter_lt {all : List String} (sorted : all.Pairwise (· < ·)) (member : a ∈ all) :
    all.idxOf a = (all.filter (· < a)).length := by
  induction all with
  | nil => contradiction
  | cons path rest ih =>
    obtain ⟨below, sorted⟩ := List.pairwise_cons.mp sorted
    by_cases same : path = a
    · subst same
      have none : rest.filter (· < path) = [] := by
        apply List.filter_eq_nil_iff.mpr
        intro other listed
        rw [decide_eq_true_eq]
        exact Std.not_gt_of_lt (below other listed)
      rw [List.idxOf_cons_self, List.filter_cons_of_neg (by rw [decide_eq_true_eq]; exact Std.lt_irrefl), none]
      rfl
    · have later : a ∈ rest := (List.mem_cons.mp member).resolve_left (Ne.symm same)
      rw [List.idxOf_cons_ne rest same, ih sorted later, List.filter_cons_of_pos (by simpa using below a later),
        List.length_cons]

/-- A file is scanned if fewer scannable files stand before it than may be scanned. -/
theorem mem_candidates_of_lt {exclude : List String} (sorted : c.tracked.Pairwise (· < ·)) {files : Nat}
    (bound : c.bounds.files = files) (tracked : a ∈ c.tracked) (included : a ∉ exclude)
    (family : c.familyFor a ∈ Import.scannedFamilies)
    (room : (c.tracked.filter fun path =>
      path < a ∧ path ∉ exclude ∧ c.familyFor path ∈ Import.scannedFamilies).length < files) :
    a ∈ c.candidates exclude := by
  rw [candidates_eq c exclude (bound ▸ Int.natCast_nonneg files), bound, Int.toNat_natCast]
  have listed : a ∈ c.tracked.filter fun path =>
      !exclude.contains path && Import.scannedFamilies.contains (c.familyFor path) := by
    simp [tracked, included, family]
  rw [List.mem_take_iff_idxOf_lt listed, idxOf_filter_lt (sorted.filter _) listed, List.filter_filter]
  simpa [and_assoc] using room

/-- The edges from one changed file to another file are the edges that the other one, as the changed file, has from
the first. -/
theorem forward_reverse_dual (tools : Toolchain) (listing : Option (List String))
    (content : (ref path : String) → Content) (edges ring files : Nat) (ref : String) {a b : String} :
    let c := ofListing tools listing content edges ring files
    a ∈ c.tracked → a ≠ b → c.familyFor a ∈ Import.scannedFamilies →
    (∀ l, tools.registry.forPath? a = some l → c.Untreed ref a l) →
    (c.tracked.filter fun path =>
      path < a ∧ path ≠ b ∧ c.familyFor path ∈ Import.scannedFamilies).length < files →
    (c.edgesInto ref {b} (c.candidates [b])).length ≤ edges →
    (c.build [a] ref).graph.forward.filter (·.target = b) =
      (c.build [b] ref).graph.reverse.filter (·.source = a) := by
  intro c tracked apart family untreed room fits
  have sorted : c.tracked.Pairwise (· < ·) := FileIndex.pairwise_snapshot listing
  have counts : 0 ≤ c.bounds.files := Int.natCast_nonneg files
  have scanned : a ∈ c.candidates [b] :=
    mem_candidates_of_lt sorted rfl tracked (by simpa using apart) family (by simpa using room)
  have whole : (c.build [b] ref).graph.reverse = c.edgesInto ref {b} (c.candidates [b]) := by
    rw [(c.build_cutsOff [b] ref).reverse]
    exact List.take_of_length_le fits
  have read : (c.build [a] ref).graph.forward = c.forward ref [a] := rfl
  rw [whole, filter_edgesInto (nodup_candidates sorted counts [b]) scanned, read, forward_singleton untreed,
    List.filter_filter]
  apply List.filter_congr
  intro e _
  have elsewhere : e.target = b → e.target ≠ a := fun same => same ▸ apart.symm
  simpa using elsewhere

/-- A file that includes another one, and itself, where there is room for one file and one edge only. -/
theorem forward_reverse_dual_full :
    let tools : Toolchain := ⟨.standard, .everything, fun _ _ => .failed⟩
    let content (_ path : String) : Content :=
      if path = "a.c" then .text "#include \"b.h\"\n#include \"a.c\"" else .absent
    let c := ofListing tools (some ["b.h", "a.c"]) content 1 5 1
    (c.build ["a.c"] "HEAD").graph.forward.filter (·.target = "b.h") =
      (c.build ["b.h"] "HEAD").graph.reverse.filter (·.source = "a.c") := by
  intro tools content c
  have tracked : c.tracked = ["a.c", "b.h"] := by
    change FileIndex.snapshot (some ["b.h", "a.c"]) = ["a.c", "b.h"]
    cbv
  have family : c.familyFor "a.c" = "c" := by
    change Registry.standard.familyFor "a.c" = "c"
    decide +kernel
  have candidates : c.candidates ["b.h"] = ["a.c"] := by
    simp only [Codebase.candidates, tracked]
    rfl
  have imports : c.lightImports "HEAD" "a.c" = [⟨"./b.h", []⟩, ⟨"./a.c", []⟩] := by
    change Import.ofText (Resolution.familyOf (c.familyFor "a.c") "a.c") "#include \"b.h\"\n#include \"a.c\"" = _
    rw [family]
    cbv
  have fits : (c.edgesInto "HEAD" {"b.h"} (c.candidates ["b.h"])).length ≤ 1 := by
    have first : Resolution.targets ["a.c", "b.h"] ⟨"./b.h", []⟩ "a.c" "c" = [("b.h", [])] := by decide +kernel
    have second : Resolution.targets ["a.c", "b.h"] ⟨"./a.c", []⟩ "a.c" "c" = [("a.c", [])] := by decide +kernel
    simp [candidates, edgesInto, imports, targets, tracked, family, first, second]
  have room : (c.tracked.filter fun path =>
      path < "a.c" ∧ path ≠ "b.h" ∧ c.familyFor path ∈ Import.scannedFamilies).length < 1 := by
    rw [Nat.lt_one_iff, List.length_eq_zero_iff, List.filter_eq_nil_iff, tracked]
    intro path listed
    rw [decide_eq_true_eq]
    rintro ⟨less, other, -⟩
    rcases List.mem_pair.mp listed with rfl | rfl
    · exact Std.lt_irrefl less
    · exact other rfl
  refine forward_reverse_dual tools (some ["b.h", "a.c"]) content 1 5 1 "HEAD" ?_ (by decide) ?_ ?_ room fits
  · change "a.c" ∈ c.tracked
    simp [tracked]
  · change c.familyFor "a.c" ∈ Import.scannedFamilies
    rw [family]
    decide
  · intro l language
    apply Untreed.noReader
    change ((tools.registry.forPath? "a.c").map (·.family)).getD "" = "c" at family
    rw [language] at family
    change l.family = "c" at family
    rw [family]
    decide

end ChangeLens.Codebase
