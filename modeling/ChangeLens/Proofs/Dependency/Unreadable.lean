import ChangeLens.Proofs.Dependency.Order
import Mathlib

/-! Files that cannot be read. Such a file counts as an empty one: a graph lacks the edges that start from it, and no
others. Where a bound cuts the edges off, others move up into their place; but as long as no edge that was found starts
from such a file, the graph stays the same. -/
namespace ChangeLens

attribute [ext] DependencyGraph

namespace Codebase

def giving (c : Codebase) (content : (ref path : String) → Content) : Codebase := { c with content := content }

/-- Contents that differ from others in some files at most, of which there is nothing to read. -/
structure Lacks (ref : String) (lost : Set String) (whole less : (ref path : String) → Content) : Prop where
  gone : ∀ path ∈ lost, (less ref path).words? = none
  kept : ∀ path ∉ lost, (less ref path).words? = (whole ref path).words?

open Classical in
noncomputable def without (lost : Set String) (edges : List Edge) : List Edge := edges.filter (·.source ∉ lost)

theorem without_eq_self {lost : Set String} {edges : List Edge} (avoided : ∀ e ∈ edges, e.source ∉ lost) :
    without lost edges = edges :=
  List.filter_eq_self.mpr fun e member => by simpa using avoided e member

theorem without_flatMap {lost : Set String} {all left : String → List Edge} {files : List String}
    (sources : ∀ file, ∀ e ∈ all file, e.source = file) (gone : ∀ file ∈ lost, left file = [])
    (kept : ∀ file ∉ lost, left file = all file) : files.flatMap left = without lost (files.flatMap all) := by
  rw [without, List.filter_flatMap]
  refine List.flatMap_congr fun file _ => ?_
  by_cases gone_here : file ∈ lost
  · rw [gone file gone_here, List.filter_eq_nil_iff.mpr fun e member => by simp [sources file e member, gone_here]]
  · rw [kept file gone_here, List.filter_eq_self.mpr fun e member => by simp [sources file e member, gone_here]]

/-- A beginning that is free of lost files is not changed when these are taken out. -/
theorem take_without {lost : Set String} {edges : List Edge} {n : Nat} (avoided : ∀ e ∈ edges.take n, e.source ∉ lost) :
    (without lost edges).take n = edges.take n := by
  have split : without lost edges = edges.take n ++ without lost (edges.drop n) := by
    conv_lhs => rw [← List.take_append_drop n edges, without, List.filter_append]
    exact congrArg (· ++ _) (without_eq_self avoided)
  by_cases short : edges.length ≤ n
  · rw [split, List.drop_of_length_le short]
    simp [without]
  · rw [split, List.take_left' (by simp; omega)]

variable {c : Codebase} {ref : String} {lost : Set String} {whole less : (ref path : String) → Content}

theorem edgesFrom_eq (c : Codebase) (ref path : String) :
    c.edgesFrom ref path = c.edgesIn (c.content ref path) path := List.flatMap_singleton ..

theorem edgesInto_eq (c : Codebase) (ref : String) (into : Finset String) (files : List String) :
    c.edgesInto ref into files =
      files.flatMap fun file => (c.edgesOf file (c.lightImports ref file)).filter (·.target ∈ into) := by
  induction files with
  | nil => rfl
  | cons file files ih => rw [edgesInto_cons, ih, List.flatMap_cons]

theorem mem_edgesOf_of_mem_edgesInto {into : Finset String} {files : List String} {e : Edge}
    (member : e ∈ c.edgesInto ref into files) : e ∈ c.edgesOf e.source (c.lightImports ref e.source) := by
  rw [edgesInto_eq] at member
  obtain ⟨file, -, made⟩ := List.mem_flatMap.mp member
  have made := List.mem_of_mem_filter made
  rwa [(mem_edgesOf made).1]

/-- What the scans find are edges that the imports of their sources make. -/
theorem mem_edgesOf_of_found {changed : List String} {e : Edge}
    (found : e ∈ (c.build changed ref).graph.reverse ++ (c.build changed ref).graph.secondRing) :
    e ∈ c.edgesOf e.source (c.lightImports ref e.source) := by
  have cut := c.build_cutsOff changed ref
  rcases List.mem_append.mp found with first | second
  · rw [cut.reverse] at first
    exact mem_edgesOf_of_mem_edgesInto (List.mem_of_mem_take first)
  · rw [(cut.secondRing_of_ne_nil (List.ne_nil_of_mem second)).2] at second
    exact mem_edgesOf_of_mem_edgesInto (List.mem_of_mem_take second)

namespace Lacks

variable (lacks : Lacks ref lost whole less)
include lacks

theorem forward (changed : List String) :
    (c.giving less).forward ref changed = without lost ((c.giving whole).forward ref changed) := by
  rw [forward_eq, forward_eq]
  refine without_flatMap (fun file e => source_of_mem_edgesFrom) (fun file gone => ?_) fun file kept => ?_
  · rw [edgesFrom_eq, edgesIn, giving, lacks.gone file gone]
  · rw [edgesFrom_eq, edgesFrom_eq, edgesIn, edgesIn, giving, giving, lacks.kept file kept]
    rfl

theorem edgesInto (into : Finset String) (files : List String) :
    (c.giving less).edgesInto ref into files = without lost ((c.giving whole).edgesInto ref into files) := by
  rw [edgesInto_eq, edgesInto_eq]
  refine without_flatMap (fun file e member => (mem_edgesOf (List.mem_of_mem_filter member)).1) (fun file gone => ?_)
    fun file kept => ?_
  · rw [lightImports_eq, importsIn, giving, lacks.gone file gone]
    rfl
  · rw [lightImports_eq, lightImports_eq, importsIn, importsIn, giving, giving, lacks.kept file kept]
    rfl

/-- The graph stays the same if nothing was found in a file that is lost. The edges that were found are the first of all
edges, which are therefore free of lost files up to the bound. -/
theorem build_eq {changed : List String} (unchanged : ∀ path ∈ changed, path ∉ lost)
    (avoided : ∀ e ∈ ((c.giving whole).build changed ref).graph.reverse ++
      ((c.giving whole).build changed ref).graph.secondRing, e.source ∉ lost) :
    ((c.giving less).build changed ref).graph = ((c.giving whole).build changed ref).graph := by
  have cutsOff (content : (ref path : String) → Content) :
      (c.giving content).CutsOff ref changed (c.candidates changed) c.bounds.edges.toNat
        c.bounds.secondRing.toNat ((c.giving content).build changed ref).graph :=
    (c.giving content).build_cutsOff changed ref
  obtain ⟨avoidedFirst, avoidedSecond⟩ := List.forall_mem_append.mp avoided
  have reverse : ((c.giving less).build changed ref).graph.reverse =
      ((c.giving whole).build changed ref).graph.reverse := by
    rw [(cutsOff whole).reverse] at avoidedFirst
    rw [(cutsOff less).reverse, (cutsOff whole).reverse, lacks.edgesInto]
    exact take_without avoidedFirst
  -- from the same dependents, the second scan is made in both graphs or in neither
  have dependents : importers ((c.giving less).build changed ref).graph =
      importers ((c.giving whole).build changed ref).graph := by
    rw [importers, importers, reverse]
  have secondRing : ((c.giving less).build changed ref).graph.secondRing =
      ((c.giving whole).build changed ref).graph.secondRing := by
    rw [(cutsOff whole).secondRing] at avoidedSecond
    rw [(cutsOff less).secondRing, (cutsOff whole).secondRing, dependents]
    split at avoidedSecond
    next none => rw [if_pos none, if_pos none]
    next scanned =>
      rw [if_neg scanned, if_neg scanned, lacks.edgesInto]
      exact take_without avoidedSecond
  have forward : ((c.giving less).build changed ref).graph.forward =
      ((c.giving whole).build changed ref).graph.forward :=
    (lacks.forward changed).trans (without_eq_self fun e member => unchanged _ (mem_forward member).1)
  exact DependencyGraph.ext forward reverse secondRing rfl rfl

end Lacks

/-- A file that cannot be read counts as an empty one and loses the edges that start from it, no others. If none that
was found starts from it, nothing is lost. -/
theorem build_unreadable (tools : Toolchain) (listing : Option (List String)) (edges ring files : Nat)
    (changed : List String) (ref : String) {lost : Set String}
    {content failing emptied : (ref path : String) → Content}
    (fails : ∀ path ∈ lost, failing ref path = .absent ∨ failing ref path = .unreadable)
    (empties : ∀ path ∈ lost, emptied ref path = .text "")
    (elsewhere : ∀ path ∉ lost, failing ref path = content ref path ∧ emptied ref path = content ref path) :
    let c := ofListing tools listing content edges ring files
    let graph := fun given => ((ofListing tools listing given edges ring files).build changed ref).graph
    graph failing = graph emptied ∧
    ((graph failing).forward = without lost (graph content).forward ∧
      (graph content).reverse = (c.edgesInto ref changed.toFinset (c.candidates changed)).take edges ∧
      (graph failing).reverse = (without lost (c.edgesInto ref changed.toFinset (c.candidates changed))).take edges) ∧
    ((∀ path ∈ changed, path ∉ lost) →
      (∀ e ∈ (graph content).reverse ++ (graph content).secondRing, e.source ∉ lost) →
      graph failing = graph content) := by
  intro c graph
  have fewer : Lacks ref lost content failing := by
    refine ⟨fun path gone => ?_, fun path kept => by rw [(elsewhere path kept).1]⟩
    rcases fails path gone with absent | unreadable
    · rw [absent]
      rfl
    · rw [unreadable]
      rfl
  have alike : Lacks ref ∅ emptied failing := by
    refine ⟨fun path gone => gone.elim, fun path _ => ?_⟩
    by_cases gone : path ∈ lost
    · rw [fewer.gone path gone, empties path gone]
      rfl
    · rw [(elsewhere path gone).1, (elsewhere path gone).2]
  refine ⟨?_, ⟨?_, ?_, ?_⟩, fun unchanged avoided => ?_⟩
  · exact alike.build_eq (c := c) (fun _ _ => id) fun _ _ => id
  · exact fewer.forward (c := c) changed
  · exact (c.build_cutsOff changed ref).reverse
  · have left := fewer.edgesInto (c := c) changed.toFinset (c.candidates changed)
    exact ((c.giving failing).build_cutsOff changed ref).reverse.trans (congrArg (List.take edges) left)
  · exact fewer.build_eq (c := c) unchanged avoided

/-- A file that cannot be read, and that only includes a file that is not there, where there is room for one edge. -/
theorem build_unreadable_elsewhere :
    let tools : Toolchain := ⟨.standard, .everything, fun _ _ => .failed⟩
    let text (path : String) : String :=
      if path = "bad.c" then "#include \"gone.h\"" else if path = "good.c" then "#include \"core.h\"" else ""
    let content (_ path : String) : Content := .text (text path)
    let failing (_ path : String) : Content := if path = "bad.c" then .unreadable else .text (text path)
    let emptied (_ path : String) : Content := if path = "bad.c" then .text "" else .text (text path)
    let graph := fun given => ((ofListing tools (some ["bad.c", "core.h", "good.c"]) given 1 5 9).build
      ["core.h"] "HEAD").graph
    (graph content).reverse = [⟨"good.c", "core.h", "./core.h", []⟩] ∧
    (∀ e ∈ (graph content).reverse ++ (graph content).secondRing, e.source ≠ "bad.c") ∧
    graph failing = graph emptied ∧ graph failing = graph content := by
  intro tools text content failing emptied graph
  let c := ofListing tools (some ["bad.c", "core.h", "good.c"]) content 1 5 9
  have tracked : c.tracked = ["bad.c", "core.h", "good.c"] := by
    change FileIndex.snapshot (some ["bad.c", "core.h", "good.c"]) = _
    rw [FileIndex.snapshot, Option.getD_some, List.filter_eq_self.mpr (by decide), sortDistinct,
      List.mergeSort_of_pairwise (by decide)]
    rfl
  have badFamily : c.familyFor "bad.c" = "c" := by
    change Registry.standard.familyFor "bad.c" = "c"
    decide +kernel
  have goodFamily : c.familyFor "good.c" = "c" := by
    change Registry.standard.familyFor "good.c" = "c"
    decide +kernel
  have badImports : c.lightImports "HEAD" "bad.c" = [⟨"./gone.h", []⟩] := by
    change Import.ofText (Resolution.familyOf (c.familyFor "bad.c") "bad.c") "#include \"gone.h\"" = _
    rw [badFamily]
    cbv
  have goodImports : c.lightImports "HEAD" "good.c" = [⟨"./core.h", []⟩] := by
    change Import.ofText (Resolution.familyOf (c.familyFor "good.c") "good.c") "#include \"core.h\"" = _
    rw [goodFamily]
    cbv
  have nowhere : Resolution.targets ["bad.c", "core.h", "good.c"] ⟨"./gone.h", []⟩ "bad.c" "c" = [] := by
    decide +kernel
  have core :
      Resolution.targets ["bad.c", "core.h", "good.c"] ⟨"./core.h", []⟩ "good.c" "c" = [("core.h", [])] := by
    decide +kernel
  have edgeless : c.edgesOf "bad.c" (c.lightImports "HEAD" "bad.c") = [] := by
    simp [edgesOf, badImports, targets, tracked, badFamily, nowhere]
  have candidates : c.candidates ["core.h"] = ["bad.c", "good.c"] := by
    simp only [Codebase.candidates, tracked]
    rfl
  have reverse : (graph content).reverse = [⟨"good.c", "core.h", "./core.h", []⟩] := by
    change (c.build ["core.h"] "HEAD").graph.reverse = _
    rw [(c.build_cutsOff ["core.h"] "HEAD").reverse, candidates]
    have room : c.bounds.edges.toNat = 1 := rfl
    simp [edgesInto, badImports, goodImports, targets, tracked, badFamily, goodFamily, nowhere, core, room]
  have avoided : ∀ e ∈ (graph content).reverse ++ (graph content).secondRing, e.source ≠ "bad.c" := by
    intro e found same
    have made : e ∈ c.edgesOf e.source (c.lightImports "HEAD" e.source) := mem_edgesOf_of_found found
    rw [same, edgeless] at made
    exact List.not_mem_nil made
  have fails : ∀ path ∈ ({"bad.c"} : Set String),
      failing "HEAD" path = .absent ∨ failing "HEAD" path = .unreadable := by
    rintro path rfl
    exact .inr rfl
  have empties : ∀ path ∈ ({"bad.c"} : Set String), emptied "HEAD" path = .text "" := by
    rintro path rfl
    rfl
  have elsewhere : ∀ path ∉ ({"bad.c"} : Set String),
      failing "HEAD" path = content "HEAD" path ∧ emptied "HEAD" path = content "HEAD" path := by
    intro path kept
    exact ⟨if_neg kept, if_neg kept⟩
  obtain ⟨alike, -, same⟩ := build_unreadable tools (some ["bad.c", "core.h", "good.c"]) 1 5 9 ["core.h"] "HEAD"
    fails empties elsewhere
  exact ⟨reverse, avoided, alike, same (by simp) avoided⟩

end Codebase
end ChangeLens
