import ChangeLens.Proofs.Syntax.Walk

/-! The order in which the text of a tree is read: a node comes before all below it, and what stands below one child
comes before what stands below a later one. Every walk lists what it lists in this order, and so no place twice. -/
namespace ChangeLens

/-- The place that is read first of two. -/
inductive Place.Before : Place → Place → Prop where
  | above (top : Place) (i : Nat) (below : Place) : Before top (below ++ i :: top)
  | beside {i j : Nat} (earlier : i < j) (top left right : Place) : Before (left ++ i :: top) (right ++ j :: top)

/-- Read from the root, the places stand in the order of a dictionary. -/
theorem Place.Before.reverse_lt {p q : Place} (before : p.Before q) : p.reverse < q.reverse := by
  cases before with
  | above _ i below =>
    have longer : p.reverse ++ [] < p.reverse ++ i :: below.reverse :=
      List.append_left_lt (List.nil_lt_cons i below.reverse)
    simpa using longer
  | @beside i j earlier top left right =>
    have later : top.reverse ++ i :: left.reverse < top.reverse ++ j :: right.reverse :=
      List.append_left_lt (List.cons_lt_cons_iff.mpr (.inl earlier))
    simpa using later

theorem Place.Before.ne {p q : Place} (before : p.Before q) : p ≠ q := by
  rintro rfl
  exact List.lt_irrefl _ before.reverse_lt

/-- Some spots of a tree are those whose nodes satisfy `p`, each of them once and in the order of the text. -/
structure InDocumentOrder (root : Node) (p : Node → Bool) (spots : List Spot) : Prop where
  mem_iff : ∀ s, s ∈ spots ↔ s.StandsIn root ∧ p s.node = true
  once : (spots.map (·.place)).Nodup
  ordered : spots.Pairwise (·.place.Before ·.place)

theorem Spot.pairwise_children (s : Spot) :
    s.children.Pairwise fun a b => ∃ i j, i < j ∧ a.place = i :: s.place ∧ b.place = j :: s.place := by
  have indices : (s.children.map (·.place)).Pairwise fun a b => ∃ i j, i < j ∧ a = i :: s.place ∧ b = j :: s.place := by
    rw [map_place_children, List.pairwise_map]
    exact List.pairwise_lt_range.imp fun {i j} less => ⟨i, j, less, rfl, rfl⟩
  exact List.pairwise_map.mp indices

namespace Walk

variable {w : Walk}

/-- What is listed below one child is read before what is listed below a later one. -/
theorem pairwise_flatMap_spots (s : Spot)
    (each : ∀ c ∈ s.children, (w.spots c).Pairwise (·.place.Before ·.place)) :
    (s.children.flatMap w.spots).Pairwise (·.place.Before ·.place) := by
  refine List.pairwise_flatMap.mpr ⟨each, s.pairwise_children.imp ?_⟩
  rintro a b ⟨i, j, earlier, placeA, placeB⟩ x listedX y listedY
  obtain ⟨left, atX⟩ := suffix_of_mem_spots listedX
  obtain ⟨right, atY⟩ := suffix_of_mem_spots listedY
  rw [← atX, ← atY, placeA, placeB]
  exact .beside earlier s.place left right

theorem before_of_mem_below {s t : Spot} (listed : t ∈ s.children.flatMap w.spots) : s.place.Before t.place := by
  obtain ⟨c, child, listed⟩ := List.mem_flatMap.mp listed
  obtain ⟨i, place, -⟩ := Spot.mem_children.mp child
  obtain ⟨below, at_⟩ := suffix_of_mem_spots listed
  rw [← at_, place]
  exact .above s.place i below

theorem pairwise_spots (w : Walk) (start : Spot) : (w.spots start).Pairwise (·.place.Before ·.place) := by
  induction start using Spot.induction with
  | step start ih =>
    rw [spots_eq]
    refine List.pairwise_append.mpr ⟨?_, ?_, fun s here t later => ?_⟩
    · split <;> simp
    · split
      next => exact pairwise_flatMap_spots start ih
      next => exact .nil
    · split at here
      next =>
        obtain rfl := List.mem_singleton.mp here
        split at later
        next => exact before_of_mem_below later
        next => contradiction
      next => contradiction

/-- A walk that enters every node lists all that it is to list, in document order. -/
theorem inDocumentOrder (w : Walk) (everywhere : ∀ n, w.enters n = true) (root : Node) :
    InDocumentOrder root w.lists (w.spots ⟨[], root⟩) where
  mem_iff _ := mem_spots_iff everywhere
  once := List.pairwise_map.mpr ((pairwise_spots w _).imp Place.Before.ne)
  ordered := pairwise_spots w _

/-- The nodes that a walk of everything lists are those of the recursion over the tree. -/
theorem map_node_spots (w : Walk) (lists : ∀ n, w.lists n = true) (enters : ∀ n, w.enters n = true) (s : Spot) :
    (w.spots s).map (·.node) = s.node.preorder := by
  induction s using Spot.induction with
  | step s ih =>
    rw [spots_eq, if_pos (lists _), if_pos (enters _), List.singleton_append, List.map_cons,
      Spot.map_node_flatMap ih, Node.preorder_eq, Node.preorderAll_eq]

end Walk
end ChangeLens
