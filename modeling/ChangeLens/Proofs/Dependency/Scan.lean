import ChangeLens.Dependency.Build
import ChangeLens.FileIndex
import Mathlib.Data.Finset.Card
import Mathlib.Data.List.TakeDrop
import ChangeLens.Proofs.Keyed

/-! The two scans, compared with listing all edges and cutting the list off afterwards. What the scans remember
never changes what they find, and a bound that is met in the middle of a file cuts that file's edges. -/
namespace ChangeLens

theorem Import.ofText_empty (family : String) : Import.ofText family "" = [] := by
  simp [ofText, findAll, scan, inOrder]

namespace FileIndex

theorem mem_snapshot {listing : Option (List String)} {path : String} :
    path ∈ snapshot listing ↔ path ∈ listing.getD [] ∧ path ≠ "" := by
  simp [snapshot, mem_sortDistinct]

theorem pairwise_snapshot (listing : Option (List String)) : (snapshot listing).Pairwise (· < ·) :=
  pairwise_sortDistinct _

end FileIndex

/-- What is read of a content. An empty text is like none. -/
def Content.words? (content : Content) : Option String := content.text?.filter (!·.isEmpty)

namespace Codebase

/-- A repository as of some listing of its tracked files, with bounds that are counts. -/
def ofListing (tools : Toolchain) (listing : Option (List String)) (content : (ref path : String) → Content)
    (edges ring files : Nat) : Codebase :=
  ⟨tools, FileIndex.snapshot listing, content, ⟨edges, ring, files⟩⟩

/-- The imports that scanning a file finds. A file that is absent or cannot be read has none. -/
def lightImports (c : Codebase) (ref path : String) : List Import :=
  match c.content ref path with
  | .text source => c.scannedImports source path
  | _ => []

def importsIn (c : Codebase) (content : Content) (path : String) : List Import :=
  (content.words?.map (c.scannedImports · path)).getD []

def edgesIn (c : Codebase) (content : Content) (path : String) : List Edge :=
  match content.words? with
  | none => []
  | some text => (c.edgesOf path (c.imports text path)).filter (·.target != path)

/-- All edges from some files into some others, in the order of the files, then of the imports of a file, then
of what an import leads to. -/
def edgesInto (c : Codebase) (ref : String) (into : Finset String) (files : List String) : List Edge :=
  files.flatMap fun file => (c.lightImports ref file).flatMap fun i =>
    ((c.targets i file).filter (·.1 ∈ into)).map fun (target, symbols) =>
      ⟨file, target, i.specifier, symbols⟩

theorem edgesInto_cons (c : Codebase) (ref : String) (into : Finset String) (file : String)
    (files : List String) :
    c.edgesInto ref into (file :: files) =
      (c.edgesOf file (c.lightImports ref file)).filter (·.target ∈ into) ++ c.edgesInto ref into files := by
  simp only [edgesInto, List.flatMap_cons, edgesOf, List.filter_flatMap, List.filter_map]
  rfl

/-- What is remembered of a file is what reading it again would give. -/
def Faithful (c : Codebase) (ref : String) (m : Memory) : Prop :=
  ∀ path imports, m.known.lookup path = some imports → imports = c.lightImports ref path

theorem faithful_empty (c : Codebase) (ref : String) : c.Faithful ref {} := by
  intro path imports found
  simp at found

theorem read_eq (c : Codebase) (ref path : String) :
    (((c.content ref path).text?.filter (!·.isEmpty)).map (c.scannedImports · path)).getD [] =
      c.lightImports ref path := by
  unfold lightImports
  cases c.content ref path with
  | text source =>
    by_cases empty : source = ""
    · simp [Content.text?, Option.filter, empty, scannedImports, Import.ofText_empty]
    · simp [Content.text?, Option.filter, empty]
  | absent => rfl
  | unreadable => rfl

theorem lightImports_eq (c : Codebase) (ref path : String) :
    c.lightImports ref path = c.importsIn (c.content ref path) path := (c.read_eq ref path).symm

/-- Remembered or read, the imports are the same, and the memory stays faithful. -/
theorem importsOf_spec (c : Codebase) (ref path : String) (m : Memory) (faithful : c.Faithful ref m) :
    (c.importsOf ref path m).1 = c.lightImports ref path ∧ c.Faithful ref (c.importsOf ref path m).2 := by
  unfold importsOf
  cases known : m.known.lookup path with
  | some imports => exact ⟨faithful path imports known, faithful⟩
  | none =>
    refine ⟨c.read_eq ref path, fun other imports found => ?_⟩
    simp only [List.lookup_cons] at found
    split at found
    next same =>
      rw [← Option.some.inj found, read_eq, beq_iff_eq.mp same]
    next => exact faithful other imports found

def room (c : Codebase) (edges : List Edge) : Nat := c.bounds.edges.toNat - edges.length

theorem room_append (c : Codebase) (edges more : List Edge) :
    c.room (edges ++ more.take (c.room edges)) = c.room edges - more.length := by
  simp only [room, List.length_append, List.length_take]
  omega

/-- Testing the bound at every edge takes as many of the edges as there is room for. -/
theorem foldl_addEdge (c : Codebase) (targets : List String) (found edges : List Edge) :
    found.foldl (c.addEdge targets) edges =
      edges ++ (found.filter (·.target ∈ targets.toFinset)).take (c.room edges) := by
  induction found generalizing edges with
  | nil => simp
  | cons e found ih =>
    rw [List.foldl_cons, ih]
    by_cases wanted : e.target ∈ targets
    · by_cases fits : (edges.length : Int) < c.bounds.edges
      · have next : c.room edges = c.room (edges ++ [e]) + 1 := by
          simp only [room, List.length_append, List.length_singleton]
          omega
        simp [addEdge, wanted, fits, next]
      · have full : c.room edges = 0 := by
          simp only [room]
          omega
        simp [addEdge, wanted, fits, full]
    · simp [addEdge, wanted]

/-- A scan finds the first of all edges that lead from the files to the targets, as many as there is room for. -/
theorem scan_spec (c : Codebase) (ref : String) (targets skip files : List String) (edges : List Edge)
    (m : Memory) (faithful : c.Faithful ref m) :
    (c.scan ref targets skip files edges m).1 =
        edges ++ (c.edgesInto ref targets.toFinset (files.filter (· ∉ skip))).take (c.room edges) ∧
      c.Faithful ref (c.scan ref targets skip files edges m).2 := by
  -- Both the edges and the memory vary along the files: what is kept of the memory is that it is faithful.
  induction files generalizing edges m with
  | nil => exact ⟨by simp [scan, edgesInto], faithful⟩
  | cons file files ih =>
    rw [scan]
    by_cases full : (edges.length : Int) ≥ c.bounds.edges
    · have none : c.room edges = 0 := by
        simp only [room]
        omega
      simp [full, none, faithful]
    · by_cases skipped : file ∈ skip
      · simpa [full, skipped] using ih edges m faithful
      · obtain ⟨found, kept⟩ := c.importsOf_spec ref file m faithful
        obtain ⟨rest, last⟩ := ih ((c.edgesOf file (c.lightImports ref file)).foldl (c.addEdge targets) edges)
          (c.importsOf ref file m).2 kept
        simp only [full, if_false, List.contains_eq_mem, skipped, decide_false, Bool.false_eq_true, found]
        refine ⟨?_, last⟩
        rw [rest, List.filter_cons_of_pos (by simpa using skipped), edgesInto_cons, foldl_addEdge,
          room_append, List.take_append, List.append_assoc]

def importers (g : DependencyGraph) : Finset String := (g.reverse.map (·.source)).toFinset

/-- A graph that comes from listing all edges of the scanned files and cutting the lists off afterwards. -/
structure CutsOff (c : Codebase) (ref : String) (changed scanned : List String) (edges ring : Nat)
    (g : DependencyGraph) : Prop where
  reverse : g.reverse = (c.edgesInto ref changed.toFinset scanned).take edges
  secondRing : g.secondRing =
    if (importers g).card = 0 ∨ ring < (importers g).card then []
    else (c.edgesInto ref (importers g) (scanned.filter (· ∉ importers g))).take edges
  filesScanned : g.filesScanned = scanned.length

theorem toFinset_dependents (g : DependencyGraph) : g.dependents.toFinset = importers g := by
  ext path
  simp [DependencyGraph.dependents, DependencyGraph.sources, importers]

theorem length_dependents (g : DependencyGraph) : g.dependents.length = (importers g).card := by
  have distinct : g.dependents.Nodup := nodup_eraseDups _
  rw [← toFinset_dependents, List.toFinset_card_of_nodup distinct]

def afterFirst (c : Codebase) (changed : List String) (ref : String) : Memory :=
  (c.scan ref changed [] (c.candidates changed) [] {}).2

theorem build_reverse (c : Codebase) (changed : List String) (ref : String) :
    (c.build changed ref).graph.reverse = (c.scan ref changed [] (c.candidates changed) [] {}).1 := rfl

theorem build_secondRing (c : Codebase) (changed : List String) (ref : String) :
    (c.build changed ref).graph.secondRing =
      if (c.build changed ref).graph.dependents = [] ∨
          c.bounds.secondRing < (c.build changed ref).graph.dependents.length then []
      else (c.scan ref (c.build changed ref).graph.dependents (c.build changed ref).graph.dependents
        (c.candidates changed) [] (c.afterFirst changed ref)).1 := by
  have unfolded : (c.build changed ref).graph.secondRing =
      (if !(c.build changed ref).graph.dependents.isEmpty &&
          ((c.build changed ref).graph.dependents.length : Int) ≤ c.bounds.secondRing
        then c.scan ref (c.build changed ref).graph.dependents (c.build changed ref).graph.dependents
          (c.candidates changed) [] (c.afterFirst changed ref)
        else ([], c.afterFirst changed ref)).1 := rfl
  rw [unfolded]
  generalize (c.build changed ref).graph.dependents = dependents
  by_cases none : dependents = []
  · simp [none]
  · by_cases many : c.bounds.secondRing < dependents.length
    · have : ¬(dependents.length : Int) ≤ c.bounds.secondRing := by omega
      simp [many, this]
    · have : (dependents.length : Int) ≤ c.bounds.secondRing := by omega
      simp [none, many, this]

/-- Every graph is built as if from such lists. Bounds below zero count as zero. -/
theorem build_cutsOff (c : Codebase) (changed : List String) (ref : String) :
    c.CutsOff ref changed (c.candidates changed) c.bounds.edges.toNat c.bounds.secondRing.toNat
      (c.build changed ref).graph := by
  obtain ⟨first, faithful⟩ := c.scan_spec ref changed [] (c.candidates changed) [] {} (c.faithful_empty ref)
  have second := fun targets skip => (c.scan_spec ref targets skip (c.candidates changed) []
    (c.afterFirst changed ref) faithful).1
  refine ⟨?_, ?_, rfl⟩
  · rw [build_reverse, first]
    simp [room]
  · rw [build_secondRing, second, ← length_dependents, ← toFinset_dependents]
    generalize (c.build changed ref).graph.dependents = dependents
    have skipped : (dependents = [] ∨ c.bounds.secondRing < dependents.length) ↔
        (dependents.length = 0 ∨ c.bounds.secondRing.toNat < dependents.length) := by
      rw [← List.length_eq_zero_iff]
      omega
    simp only [skipped, List.nil_append, List.mem_toFinset, room, List.length_nil, Nat.sub_zero]

theorem candidates_eq (c : Codebase) (exclude : List String) (counts : 0 ≤ c.bounds.files) :
    c.candidates exclude = (c.tracked.filter fun path =>
      !exclude.contains path && Import.scannedFamilies.contains (c.familyFor path)).take
        c.bounds.files.toNat := by
  simp only [candidates]
  split
  next => rw [Text.takeSigned, if_pos counts]
  next within =>
    rw [List.take_of_length_le]
    omega

/-- The scans visit the first of the scannable files in the order of their paths, and the bounds cut the lists
of all edges off. A higher bound therefore only appends reverse edges. -/
theorem build_cuts_off_all_edges (tools : Toolchain) (listing : Option (List String))
    (content : (ref path : String) → Content) (edges ring files : Nat) (changed : List String)
    (ref : String) :
    let c := ofListing tools listing content edges ring files
    (∃ all : List String, all.Pairwise (· < ·) ∧
      (∀ path, path ∈ all ↔ (path ∈ listing.getD [] ∧ path ≠ "") ∧ path ∉ changed ∧
        c.familyFor path ∈ Import.scannedFamilies) ∧
      c.CutsOff ref changed (all.take files) edges ring (c.build changed ref).graph) ∧
    ∀ more, edges ≤ more → (c.build changed ref).graph.reverse <+:
      ((ofListing tools listing content more ring files).build changed ref).graph.reverse := by
  intro c
  refine ⟨⟨_, (FileIndex.pairwise_snapshot listing).filter fun path =>
    !changed.contains path && Import.scannedFamilies.contains (c.familyFor path), ?_, ?_⟩, ?_⟩
  · intro path
    simp [FileIndex.mem_snapshot]
  · have built := c.build_cutsOff changed ref
    rw [candidates_eq c changed (Int.natCast_nonneg files)] at built
    exact built
  · intro more higher
    rw [(build_cutsOff _ changed ref).reverse, (build_cutsOff _ changed ref).reverse]
    exact List.take_prefix_take_left higher

end Codebase
end ChangeLens
