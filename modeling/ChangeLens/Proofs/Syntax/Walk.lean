import ChangeLens.Proofs.Syntax.Place

/-! Walks down a tree that list some of the nodes they pass, with their places. What an entered node hands on to
its children holds of all nodes that a walk lists. -/
namespace ChangeLens

structure Spot where
  place : Place
  node : Node

namespace Spot

def StandsIn (s : Spot) (root : Node) : Prop := root.at? s.place = some s.node

def children (s : Spot) : List Spot := s.node.children.zipIdx.map fun c => ⟨c.2 :: s.place, c.1⟩

theorem map_node_children (s : Spot) : s.children.map (·.node) = s.node.children := by
  simp [children, Function.comp_def]

theorem map_place_children (s : Spot) :
    s.children.map (·.place) = (List.range s.node.children.length).map (· :: s.place) := by
  rw [children, List.map_map, List.range_eq_range', ← List.zipIdx_map_snd, List.map_map]
  rfl

theorem mem_children {s c : Spot} :
    c ∈ s.children ↔ ∃ i, c.place = i :: s.place ∧ s.node.children[i]? = some c.node := by
  simp only [children, List.mem_map, Prod.exists, List.mem_zipIdx_iff_getElem?]
  constructor
  · rintro ⟨n, i, found, rfl⟩
    exact ⟨i, rfl, found⟩
  · rintro ⟨i, place, found⟩
    exact ⟨c.node, i, found, by rw [← place]⟩

theorem sizeOf_child {s c : Spot} (member : c ∈ s.children) : sizeOf c.node < sizeOf s.node := by
  obtain ⟨i, -, found⟩ := mem_children.mp member
  have less := List.sizeOf_lt_of_mem (List.mem_of_getElem? found)
  obtain ⟨place, type, named, field, text, startLine, endLine, children⟩ := s
  simp only [Node.mk.sizeOf_spec] at less ⊢
  omega

/-- Induction down a tree. -/
@[elab_as_elim]
theorem induction {motive : Spot → Prop} (step : ∀ s, (∀ c ∈ s.children, motive c) → motive s) (s : Spot) :
    motive s := step s fun c _ => induction step c
termination_by sizeOf s.node
decreasing_by exact sizeOf_child ‹c ∈ s.children›

theorem StandsIn.child {s c : Spot} {root : Node} (stands : s.StandsIn root) (member : c ∈ s.children) :
    c.StandsIn root := by
  obtain ⟨i, place, found⟩ := mem_children.mp member
  rw [StandsIn, place]
  exact Node.at?_cons.mpr ⟨s.node, stands, found⟩

theorem map_node_flatMap {f : Spot → List Spot} {g : Node → List Node} {s : Spot}
    (each : ∀ c ∈ s.children, (f c).map (·.node) = g c.node) :
    (s.children.flatMap f).map (·.node) = s.node.children.flatMap g := by
  rw [← map_node_children, List.flatMap_map, List.map_flatMap]
  exact List.flatMap_congr each

def child? (s : Spot) (field : String) : Option Spot := s.children.find? (·.node.field == some field)

theorem map_node_child? (s : Spot) (field : String) : (s.child? field).map (·.node) = s.node.child? field := by
  rw [Node.child?, ← map_node_children, List.find?_map]
  rfl

theorem mem_children_of_child? {s c : Spot} {field : String} (found : s.child? field = some c) : c ∈ s.children :=
  List.mem_of_find?_eq_some found

end Spot

structure Walk where
  lists : Node → Bool
  /-- Whether to go on to the children of a node. -/
  enters : Node → Bool

namespace Walk

variable (w : Walk)

def spots (s : Spot) : List Spot :=
  (if w.lists s.node then [s] else []) ++
    if w.enters s.node then s.children.attach.flatMap fun c => spots c.1 else []
termination_by sizeOf s.node
decreasing_by exact Spot.sizeOf_child c.2

theorem spots_eq (s : Spot) : w.spots s =
    (if w.lists s.node then [s] else []) ++ if w.enters s.node then s.children.flatMap w.spots else [] := by
  rw [spots]
  simp only [List.flatMap_subtype, List.unattach_attach]

/-- The walk down the same way that lists every node it comes to. -/
def passing : Walk := { w with lists := fun _ => true }

/-- What a walk lists of the nodes it comes to does not change where it goes. -/
theorem spots_eq_filter (s : Spot) : w.spots s = (w.passing.spots s).filter (w.lists ·.node) := by
  induction s using Spot.induction with
  | step s ih =>
    have below : s.children.flatMap w.spots = (s.children.flatMap w.passing.spots).filter (w.lists ·.node) := by
      rw [List.filter_flatMap]
      exact List.flatMap_congr ih
    have enters : w.passing.enters s.node = w.enters s.node := rfl
    rw [spots_eq, spots_eq, below, enters, List.filter_append]
    congr 1
    · cases listed : w.lists s.node <;> simp [passing, listed]
    · split <;> rfl

variable {w}

/-- What a spot hands on to those of its children that are entered holds of all that is listed. -/
theorem of_mem_spots {P : Spot → Prop}
    (handed : ∀ s c, P s → w.enters s.node = true → c ∈ s.children → P c) {start s : Spot} (holds : P start)
    (listed : s ∈ w.spots start) : w.lists s.node = true ∧ P s := by
  induction start using Spot.induction with
  | step start ih =>
    rw [spots_eq, List.mem_append] at listed
    rcases listed with here | below
    · split at here
      next lists =>
        obtain rfl := List.mem_singleton.mp here
        exact ⟨lists, holds⟩
      next => exact absurd here List.not_mem_nil
    · split at below
      next enters =>
        obtain ⟨c, member, below⟩ := List.mem_flatMap.mp below
        exact ih c member (handed start c holds enters member) below
      next => exact absurd below List.not_mem_nil

theorem standsIn_of_mem_spots {root : Node} {start s : Spot} (stands : start.StandsIn root)
    (listed : s ∈ w.spots start) : s.StandsIn root :=
  (of_mem_spots (P := (·.StandsIn root)) (fun _ _ above _ member => above.child member) stands listed).2

theorem suffix_of_mem_spots {start s : Spot} (listed : s ∈ w.spots start) : start.place <:+ s.place := by
  refine (of_mem_spots (P := fun s => start.place <:+ s.place) (fun s c above _ member => ?_)
    (List.suffix_refl _) listed).2
  obtain ⟨i, place, -⟩ := Spot.mem_children.mp member
  rw [place]
  exact above.trans (List.suffix_cons i _)

/-- A walk that enters every node comes to every place below its start. -/
theorem mem_spots_below (everywhere : ∀ n, w.enters n = true) {start : Spot} {below : Place} {n : Node}
    (found : start.node.at? below = some n) (lists : w.lists n = true) :
    ⟨below ++ start.place, n⟩ ∈ w.spots start := by
  induction start using Spot.induction generalizing below with
  | step start ih =>
    rw [spots_eq, if_pos (everywhere _), List.mem_append]
    rcases List.eq_nil_or_concat' below with rfl | ⟨below, i, rfl⟩
    · obtain rfl := Option.some.inj found
      exact .inl (by simp [lists])
    · rw [Node.at?_concat, Option.bind_eq_some_iff] at found
      obtain ⟨c, here, found⟩ := found
      have child : ⟨i :: start.place, c⟩ ∈ start.children := Spot.mem_children.mpr ⟨i, rfl, here⟩
      refine .inr (List.mem_flatMap.mpr ⟨_, child, ?_⟩)
      simpa using ih _ child found

theorem mem_spots_iff (everywhere : ∀ n, w.enters n = true) {root : Node} {s : Spot} :
    s ∈ w.spots ⟨[], root⟩ ↔ s.StandsIn root ∧ w.lists s.node = true := by
  constructor
  · intro listed
    have top : (⟨[], root⟩ : Spot).StandsIn root := rfl
    refine ⟨standsIn_of_mem_spots top listed, ?_⟩
    exact (of_mem_spots (P := fun _ => True) (fun _ _ _ _ _ => trivial) trivial listed).1
  · rintro ⟨stands, lists⟩
    have listed := @mem_spots_below w everywhere ⟨[], root⟩ _ _ stands lists
    rwa [List.append_nil] at listed

/-- The places to whose children a walk that starts below `top` comes. -/
inductive Under (w : Walk) (root : Node) (top : Place) : Place → Prop where
  | top : Under w root top top
  | entered {i : Nat} {up : Place} {n : Node} :
      Under w root top up → root.at? (i :: up) = some n → w.enters n = true → Under w root top (i :: up)

variable {root : Node}

theorem Under.suffix {top p : Place} (under : w.Under root top p) : top <:+ p := by
  induction under with
  | top => exact List.suffix_refl _
  | entered _ _ _ ih => exact ih.trans (List.suffix_cons ..)

/-- Of two walks that come to one place, one has come to where the other started. -/
theorem Under.compare {a b p : Place} (left : w.Under root a p) (right : w.Under root b p) :
    w.Under root a b ∨ w.Under root b a := by
  induction left with
  | top => exact .inr right
  | entered left found enters ih =>
    cases right with
    | top => exact .inl (left.entered found enters)
    | entered right _ _ => exact ih right

theorem of_mem_below {top s : Spot} (stands : top.StandsIn root) (listed : s ∈ top.children.flatMap w.spots) :
    w.lists s.node = true ∧ s.StandsIn root ∧ ∃ i up, s.place = i :: up ∧ w.Under root top.place up := by
  obtain ⟨c, member, listed⟩ := List.mem_flatMap.mp listed
  obtain ⟨i, place, -⟩ := Spot.mem_children.mp member
  refine of_mem_spots (P := fun s => s.StandsIn root ∧ ∃ i up, s.place = i :: up ∧ w.Under root top.place up)
    ?_ ⟨stands.child member, i, top.place, place, .top⟩ listed
  rintro s c ⟨here, j, up, at_, under⟩ enters member
  obtain ⟨k, place, -⟩ := Spot.mem_children.mp member
  refine ⟨here.child member, k, s.place, place, ?_⟩
  rw [at_]
  exact under.entered (at_ ▸ here) enters

end Walk
end ChangeLens
