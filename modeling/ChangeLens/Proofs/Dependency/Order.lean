import ChangeLens.Proofs.Dependency.Placement

/-! The graph as a function of sets. Neither the order in which the tracked files are listed nor that of the changed
files shows in the two scans, also where a bound cuts them off; the edges from changed files stand in the order
of the changed files and are the same for each of them. -/
namespace ChangeLens

namespace FileIndex

theorem snapshot_congr {listing other : Option (List String)}
    (same : ∀ path, path ≠ "" → (path ∈ listing.getD [] ↔ path ∈ other.getD [])) :
    snapshot listing = snapshot other := by
  have members (path : String) : path ∈ snapshot listing ↔ path ∈ snapshot other := by
    rw [mem_snapshot, mem_snapshot]
    exact and_congr_left (same path)
  have distinct (l : Option (List String)) : (snapshot l).Nodup :=
    (pairwise_snapshot l).imp fun less => Std.ne_of_lt less
  exact ((List.perm_ext_iff_of_nodup (distinct listing) (distinct other)).mpr members).eq_of_pairwise
    (fun a b _ _ ab ba => absurd ba (Std.not_gt_of_lt ab)) (pairwise_snapshot listing) (pairwise_snapshot other)

end FileIndex

namespace Codebase

variable {c : Codebase} {ref : String} {changed other : List String}

theorem candidates_congr (same : ∀ path, path ∈ changed ↔ path ∈ other) :
    c.candidates changed = c.candidates other := by
  have excluded (path : String) : changed.contains path = other.contains path := by
    simp [List.contains_eq_mem, same path]
  simp only [candidates, excluded]

/-- What the scans find follows from which files were changed and which were scanned. -/
theorem CutsOff.unique {scanned : List String} {edges ring : Nat} {g h : DependencyGraph}
    (same : ∀ path, path ∈ changed ↔ path ∈ other) (left : c.CutsOff ref changed scanned edges ring g)
    (right : c.CutsOff ref other scanned edges ring h) :
    g.reverse = h.reverse ∧ g.secondRing = h.secondRing ∧ g.filesScanned = h.filesScanned := by
  have targets : changed.toFinset = other.toFinset := by
    ext path
    simp [same path]
  have reverse : g.reverse = h.reverse := by rw [left.reverse, right.reverse, targets]
  have dependents : importers g = importers h := by rw [importers, importers, reverse]
  exact ⟨reverse, by rw [left.secondRing, right.secondRing, dependents],
    left.filesScanned.trans right.filesScanned.symm⟩

def edgesFrom (c : Codebase) (ref path : String) : List Edge := c.forward ref [path]

theorem forward_eq (c : Codebase) (ref : String) (changed : List String) :
    c.forward ref changed = changed.flatMap (c.edgesFrom ref) :=
  List.flatMap_congr fun _ _ => (List.flatMap_singleton ..).symm

theorem source_of_mem_edgesFrom {path : String} {e : Edge} (member : e ∈ c.edgesFrom ref path) :
    e.source = path := List.mem_singleton.mp (mem_forward member).1

theorem filter_edgesFrom (path source : String) :
    (c.edgesFrom ref path).filter (·.source = source) = if path = source then c.edgesFrom ref path else [] := by
  split
  next same =>
    exact List.filter_eq_self.mpr fun e member => by simpa [same] using source_of_mem_edgesFrom member
  next other =>
    exact List.filter_eq_nil_iff.mpr fun e member => by simpa [source_of_mem_edgesFrom member] using other

theorem filter_forward (distinct : changed.Nodup) (source : String) :
    (c.forward ref changed).filter (·.source = source) =
      if source ∈ changed then c.edgesFrom ref source else [] := by
  rw [forward_eq]
  induction changed with
  | nil => rfl
  | cons path rest ih =>
    obtain ⟨fresh, distinct⟩ := List.nodup_cons.mp distinct
    rw [List.flatMap_cons, List.filter_append, filter_edgesFrom, ih distinct]
    by_cases same : path = source
    · subst same
      simp [fresh]
    · simp [same, Ne.symm same]

theorem forward_eq_flatMap_filter (distinct : changed.Nodup) :
    c.forward ref changed = changed.flatMap fun path => (c.forward ref changed).filter (·.source = path) := by
  conv_lhs => rw [forward_eq]
  refine List.flatMap_congr fun path member => ?_
  rw [filter_forward distinct, if_pos member]

/-- Two runs on the same sets of tracked and of changed files give the same graph, up to the order of the changed
files among the edges that start from them. -/
theorem build_order_irrelevant (tools : Toolchain) (content : (ref path : String) → Content)
    (edges ring files : Nat) (ref : String) {listing relisted : Option (List String)}
    (tracked : ∀ path, path ≠ "" → (path ∈ listing.getD [] ↔ path ∈ relisted.getD []))
    (same : ∀ path, path ∈ changed ↔ path ∈ other) :
    let g := ((ofListing tools listing content edges ring files).build changed ref).graph
    let h := ((ofListing tools relisted content edges ring files).build other ref).graph
    (g.reverse = h.reverse ∧ g.secondRing = h.secondRing ∧ g.filesScanned = h.filesScanned ∧
      g.blastRadius = h.blastRadius) ∧
    (changed.Nodup → other.Nodup →
      (∀ source, g.forward.filter (·.source = source) = h.forward.filter (·.source = source)) ∧
      g.forward = changed.flatMap (fun path => g.forward.filter (·.source = path)) ∧
      h.forward = other.flatMap (fun path => h.forward.filter (·.source = path))) := by
  have index : ofListing tools listing content edges ring files =
      ofListing tools relisted content edges ring files := by
    rw [ofListing, ofListing, FileIndex.snapshot_congr tracked]
  rw [index]
  generalize ofListing tools relisted content edges ring files = c
  intro g h
  obtain ⟨reverse, secondRing, scanned⟩ := (c.build_cutsOff changed ref).unique same
    (candidates_congr same ▸ c.build_cutsOff other ref)
  refine ⟨⟨reverse, secondRing, scanned, ?_⟩, fun distinct distinctOther => ⟨fun source => ?_,
    forward_eq_flatMap_filter distinct, forward_eq_flatMap_filter distinctOther⟩⟩
  · simp only [DependencyGraph.blastRadius, g, h, reverse, secondRing]
  · change (c.forward ref changed).filter _ = (c.forward ref other).filter _
    simp only [filter_forward distinct, filter_forward distinctOther, same source]

/-- Two files that import the same sibling, where there is room for one edge only. -/
theorem build_order_irrelevant_full :
    let tools : Toolchain := ⟨.standard, .everything, fun _ _ => .failed⟩
    let content (_ path : String) : Content :=
      if path = "a.py" ∨ path = "b.py" then .text "from .c import x" else .absent
    let g := ((ofListing tools (some ["c.py", "", "b.py", "a.py", "b.py"]) content 1 5 9).build
      ["d.py", "c.py"] "HEAD").graph
    let h := ((ofListing tools (some ["b.py", "a.py", "c.py"]) content 1 5 9).build
      ["c.py", "d.py"] "HEAD").graph
    (∀ path, path ≠ "" → (path ∈ (some ["c.py", "", "b.py", "a.py", "b.py"]).getD [] ↔
      path ∈ (some ["b.py", "a.py", "c.py"]).getD [])) ∧
    (∀ path, path ∈ ["d.py", "c.py"] ↔ path ∈ ["c.py", "d.py"]) ∧
    g.reverse = h.reverse ∧ ∀ source, g.forward.filter (·.source = source) = h.forward.filter (·.source = source) := by
  intro tools content g h
  have tracked : ∀ path, path ≠ "" → (path ∈ (some ["c.py", "", "b.py", "a.py", "b.py"]).getD [] ↔
      path ∈ (some ["b.py", "a.py", "c.py"]).getD []) := by
    intro path nonempty
    simp only [Option.getD_some, List.mem_cons, List.not_mem_nil, nonempty]
    tauto
  have same : ∀ path, path ∈ ["d.py", "c.py"] ↔ path ∈ ["c.py", "d.py"] := by
    intro path
    simp only [List.mem_cons, List.not_mem_nil]
    tauto
  obtain ⟨scans, forward⟩ := build_order_irrelevant tools content 1 5 9 "HEAD" tracked same
  exact ⟨tracked, same, scans.1, (forward (by decide) (by decide)).1⟩

end Codebase
end ChangeLens
