import ChangeLens.Proofs.ControlFlow.Spots

/-! The visit of a tree by means of a stack is the recursion over the tree: it comes to every node once, in document
order, whatever the shape and the depth of the tree. So the functions of a tree stand in that order, a function before
those in it and before those that come after it. -/
namespace ChangeLens.ControlFlow

/-- The visit comes to each place of a tree once, a node before those below it and an earlier child with all below it
before a later one, and carries the node above along. These are the nodes of the recursion over the tree, and the
functions are those of them that are function-like. -/
theorem visit_in_document_order (root : Node) : ∃ spots : List Spot,
    InDocumentOrder root (fun _ => true) spots ∧ spots.map (·.node) = root.preorder ∧
    visit [⟨none, root⟩] = spots.map (placed root) ∧
    InDocumentOrder root isFunction (spots.filter (isFunction ·.node)) ∧
    functions root = (spots.filter (isFunction ·.node)).map (placed root) ∧
    (functions root).map (·.node) = root.preorder.filter isFunction := by
  let whole := functionWalk.passing
  have everywhere : ∀ n, functionWalk.enters n = true := fun _ => rfl
  have nodes : (whole.spots ⟨[], root⟩).map (·.node) = root.preorder :=
    whole.map_node_spots (fun _ => rfl) everywhere _
  have listed : functionWalk.spots ⟨[], root⟩ = (whole.spots ⟨[], root⟩).filter (isFunction ·.node) :=
    functionWalk.spots_eq_filter _
  have found : functions root = ((whole.spots ⟨[], root⟩).filter (isFunction ·.node)).map (placed root) := by
    rw [functions_eq, listed]
  refine ⟨whole.spots ⟨[], root⟩, whole.inDocumentOrder everywhere root, nodes, visit_eq root,
    listed ▸ functionWalk.inDocumentOrder everywhere root, found, ?_⟩
  rw [found, List.map_map, ← nodes, List.filter_map]
  rfl

end ChangeLens.ControlFlow
