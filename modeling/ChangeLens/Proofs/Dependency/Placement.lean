import ChangeLens.Proofs.Dependency.Scan

/-! Where the edges of a graph lie. Every edge leads to a tracked file. The changed files, their dependents and
the second ring are apart, so that no file is the source of edges of two kinds. -/
namespace ChangeLens

namespace Resolution

theorem mem_tracked_of_path? {tracked : List String} {specifier fromFile family target : String}
    (found : path? tracked specifier fromFile family = some target) : target ∈ tracked := by
  simpa using List.find?_some found

theorem mem_tracked_of_mem_siblings {tracked : List String} {i : Import} {fromFile family : String}
    {t : String × List String} (member : t ∈ siblings tracked i fromFile family) : t.1 ∈ tracked := by
  obtain ⟨symbol, -, leads⟩ := List.mem_filterMap.mp member
  obtain ⟨target, found, rfl⟩ := Option.map_eq_some_iff.mp leads
  exact mem_tracked_of_path? found

/-- However an import is read, as one file or as several siblings, it leads to tracked files only. -/
theorem mem_tracked_of_mem_targets {tracked : List String} {i : Import} {fromFile family : String}
    {t : String × List String} (member : t ∈ targets tracked i fromFile family) : t.1 ∈ tracked := by
  have siblingsTracked : ∀ s ∈ (if namesSiblings i family then siblings tracked i fromFile family else []),
      s.1 ∈ tracked := by
    intro s member
    split at member
    next => exact mem_tracked_of_mem_siblings member
    next => simp at member
  simp only [targets] at member
  generalize (if namesSiblings i family then _ else _) = found at member siblingsTracked
  split at member
  next =>
    obtain ⟨target, found, rfl⟩ := Option.map_eq_some_iff.mp (Option.mem_toList.mp member)
    exact mem_tracked_of_path? found
  next => exact siblingsTracked t member

end Resolution

namespace Codebase

theorem mem_edgesOf {c : Codebase} {file : String} {imports : List Import} {e : Edge}
    (member : e ∈ c.edgesOf file imports) : e.source = file ∧ e.target ∈ c.tracked := by
  obtain ⟨i, -, made⟩ := List.mem_flatMap.mp member
  obtain ⟨t, leads, rfl⟩ := List.mem_map.mp made
  exact ⟨rfl, Resolution.mem_tracked_of_mem_targets leads⟩

theorem mem_edgesInto {c : Codebase} {ref : String} {into : Finset String} {files : List String} {e : Edge}
    (member : e ∈ c.edgesInto ref into files) :
    e.source ∈ files ∧ e.target ∈ into ∧ e.target ∈ c.tracked := by
  induction files with
  | nil => simp [edgesInto] at member
  | cons file files ih =>
    rw [edgesInto_cons] at member
    rcases List.mem_append.mp member with here | later
    · obtain ⟨made, wanted⟩ := List.mem_filter.mp here
      obtain ⟨source, tracked⟩ := mem_edgesOf made
      exact ⟨source ▸ .head _, of_decide_eq_true wanted, tracked⟩
    · obtain ⟨source, rest⟩ := ih later
      exact ⟨.tail _ source, rest⟩

theorem mem_forward {c : Codebase} {ref : String} {changed : List String} {e : Edge}
    (member : e ∈ c.forward ref changed) :
    e.source ∈ changed ∧ e.target ∈ c.tracked ∧ e.target ≠ e.source := by
  obtain ⟨path, listed, made⟩ := List.mem_flatMap.mp member
  split at made
  next => simp at made
  next =>
    obtain ⟨made, elsewhere⟩ := List.mem_filter.mp made
    obtain ⟨rfl, tracked⟩ := mem_edgesOf made
    exact ⟨listed, tracked, by simpa using elsewhere⟩

theorem mem_candidates {c : Codebase} {exclude : List String} {path : String}
    (member : path ∈ c.candidates exclude) :
    path ∈ c.tracked ∧ path ∉ exclude ∧ c.familyFor path ∈ Import.scannedFamilies := by
  have sub : c.candidates exclude ⊆ c.tracked.filter fun path =>
      !exclude.contains path && Import.scannedFamilies.contains (c.familyFor path) := by
    simp only [candidates, Text.takeSigned]
    split
    next => split <;> exact List.take_subset ..
    next => exact List.Subset.refl _
  simpa using sub member

theorem nodup_candidates {c : Codebase} (sorted : c.tracked.Pairwise (· < ·)) (counts : 0 ≤ c.bounds.files)
    (exclude : List String) : (c.candidates exclude).Nodup := by
  rw [candidates_eq c exclude counts]
  have distinct : c.tracked.Nodup := sorted.imp fun less => Std.ne_of_lt less
  exact (distinct.filter _).sublist (List.take_sublist ..)

/-- Where the edges of a graph around changed files lie, and how many there are at most. -/
structure WellPlaced (c : Codebase) (changed : List String) (edges ring : Nat) (g : DependencyGraph) :
    Prop where
  forward : ∀ e ∈ g.forward, e.source ∈ changed ∧ e.target ∈ c.tracked ∧ e.target ≠ e.source
  reverse : ∀ e ∈ g.reverse,
    (e.source ∈ c.tracked ∧ e.source ∉ changed ∧ c.familyFor e.source ∈ Import.scannedFamilies) ∧
      e.target ∈ c.tracked ∧ e.target ∈ changed
  secondRing : ∀ e ∈ g.secondRing,
    (e.source ∈ c.tracked ∧ c.familyFor e.source ∈ Import.scannedFamilies) ∧
      (e.source ∉ changed ∧ e.source ∉ g.dependents) ∧ e.target ∈ g.dependents
  reverseBound : g.reverse.length ≤ edges
  secondRingBound : g.secondRing.length ≤ edges
  dependents : g.secondRing ≠ [] → 1 ≤ g.dependents.length ∧ g.dependents.length ≤ ring

theorem mem_importers {g : DependencyGraph} {path : String} : path ∈ importers g ↔ path ∈ g.dependents := by
  rw [← toFinset_dependents, List.mem_toFinset]

/-- The second ring in full, unless the dependents are none or too many. -/
theorem CutsOff.secondRing_of_ne_nil {c : Codebase} {ref : String} {changed scanned : List String}
    {edges ring : Nat} {g : DependencyGraph} (cut : c.CutsOff ref changed scanned edges ring g)
    (nonempty : g.secondRing ≠ []) :
    (1 ≤ g.dependents.length ∧ g.dependents.length ≤ ring) ∧
      g.secondRing =
        (c.edgesInto ref (importers g) (scanned.filter (· ∉ importers g))).take edges := by
  have ring := cut.secondRing
  split at ring
  next => exact absurd ring nonempty
  next few =>
    rw [← length_dependents] at few
    exact ⟨by omega, ring⟩

theorem build_wellPlaced (c : Codebase) (changed : List String) (ref : String) :
    c.WellPlaced changed c.bounds.edges.toNat c.bounds.secondRing.toNat (c.build changed ref).graph := by
  have cut := c.build_cutsOff changed ref
  have forward : (c.build changed ref).graph.forward = c.forward ref changed := rfl
  generalize (c.build changed ref).graph = g at cut forward ⊢
  constructor
  · intro e member
    exact mem_forward (forward ▸ member)
  · intro e member
    rw [cut.reverse] at member
    obtain ⟨scanned, wanted, tracked⟩ := mem_edgesInto (List.mem_of_mem_take member)
    exact ⟨mem_candidates scanned, tracked, List.mem_toFinset.mp wanted⟩
  · intro e member
    obtain ⟨-, ring⟩ := cut.secondRing_of_ne_nil (List.ne_nil_of_mem member)
    rw [ring] at member
    obtain ⟨scanned, wanted, -⟩ := mem_edgesInto (List.mem_of_mem_take member)
    obtain ⟨scanned, apart⟩ := List.mem_filter.mp scanned
    obtain ⟨tracked, unchanged, family⟩ := mem_candidates scanned
    exact ⟨⟨tracked, family⟩, ⟨unchanged, fun known => of_decide_eq_true apart (mem_importers.mpr known)⟩,
      mem_importers.mp wanted⟩
  · rw [cut.reverse]
    exact List.length_take_le ..
  · by_cases empty : g.secondRing = []
    · simp [empty]
    · rw [(cut.secondRing_of_ne_nil empty).2]
      exact List.length_take_le ..
  · intro nonempty
    exact (cut.secondRing_of_ne_nil nonempty).1

end Codebase

namespace DependencyGraph

theorem mem_sources {edges : List Edge} {path : String} : path ∈ sources edges ↔ ∃ e ∈ edges, e.source = path := by
  simp [sources]

/-- No file is the source of edges of two kinds, and no edge leads back to its source. -/
structure Apart (g : DependencyGraph) : Prop where
  forwardReverse : (sources g.forward).Disjoint g.dependents
  forwardSecond : (sources g.forward).Disjoint g.secondDependents
  reverseSecond : g.dependents.Disjoint g.secondDependents
  loopless : ∀ e ∈ g.forward ++ g.reverse ++ g.secondRing, e.source ≠ e.target

end DependencyGraph

namespace Codebase

theorem WellPlaced.apart {c : Codebase} {changed : List String} {edges ring : Nat} {g : DependencyGraph}
    (placed : c.WellPlaced changed edges ring g) : g.Apart := by
  have outgoing : ∀ path ∈ DependencyGraph.sources g.forward, path ∈ changed := by
    intro path member
    obtain ⟨e, edge, rfl⟩ := DependencyGraph.mem_sources.mp member
    exact (placed.forward e edge).1
  have incoming : ∀ path ∈ g.dependents, path ∉ changed := by
    intro path member
    obtain ⟨e, edge, rfl⟩ := DependencyGraph.mem_sources.mp member
    exact (placed.reverse e edge).1.2.1
  have second : ∀ path ∈ g.secondDependents, path ∉ changed ∧ path ∉ g.dependents := by
    intro path member
    obtain ⟨e, edge, rfl⟩ := DependencyGraph.mem_sources.mp member
    exact (placed.secondRing e edge).2.1
  refine ⟨fun path one other => incoming path other (outgoing path one),
    fun path one other => (second path other).1 (outgoing path one),
    fun path one other => (second path other).2 one, fun e member same => ?_⟩
  rcases List.mem_append.mp member with member | member
  · rcases List.mem_append.mp member with member | member
    · exact (placed.forward e member).2.2 same.symm
    · exact (placed.reverse e member).1.2.1 (same ▸ (placed.reverse e member).2.2)
  · exact (placed.secondRing e member).2.1.2 (same ▸ (placed.secondRing e member).2.2)

/-- Whatever the files hold and however low the bounds are, all edges are in their places. -/
theorem build_edges_in_place (tools : Toolchain) (listing : Option (List String))
    (content : (ref path : String) → Content) (edges ring files : Nat) (changed : List String)
    (ref : String) :
    let c := ofListing tools listing content edges ring files
    (∀ path, path ∈ c.tracked ↔ path ∈ listing.getD [] ∧ path ≠ "") ∧
      c.WellPlaced changed edges ring (c.build changed ref).graph ∧ (c.build changed ref).graph.Apart := by
  intro c
  have placed := c.build_wellPlaced changed ref
  exact ⟨fun _ => FileIndex.mem_snapshot, placed, placed.apart⟩

end Codebase
end ChangeLens
