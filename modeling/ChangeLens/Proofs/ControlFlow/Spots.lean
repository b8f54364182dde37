import ChangeLens.ControlFlow.Annotation
import ChangeLens.Proofs.Syntax.DocumentOrder

/-! The functions of a tree and the statements of a body, with their places. A statement is reached from one
function only: on the way up from it containers are passed, and the first node that is none is the body that it
belongs to. -/
namespace ChangeLens.ControlFlow

def functionWalk : Walk := ⟨isFunction, fun _ => true⟩

def statementWalk : Walk where
  lists n := n.named && !containerTypes.contains n.type
  enters n := n.named && containerTypes.contains n.type

variable {root : Node}

def placed (root : Node) (s : Spot) : Placed := ⟨root.above? s.place, s.node⟩

theorem children_placed {s : Spot} (stands : s.StandsIn root) :
    (placed root s).children = s.children.map (placed root) := by
  have above : ∀ c ∈ s.children, (⟨some s.node, c.node⟩ : Placed) = placed root c := by
    intro c member
    obtain ⟨i, place, -⟩ := Spot.mem_children.mp member
    rw [placed, place, Node.above?, stands]
  rw [Placed.children, placed, ← Spot.map_node_children, List.map_map]
  exact List.map_congr_left above

/-- The stack holds the spots whose trees are still to be visited. -/
theorem visit_placed (root : Node) (stack : List Spot) (stand : ∀ s ∈ stack, s.StandsIn root) :
    visit (stack.map (placed root)) = (stack.flatMap functionWalk.passing.spots).map (placed root) := by
  induction pile : stack.map (placed root) using visit.induct generalizing stack with
  | case1 =>
    obtain rfl := List.map_eq_nil_iff.mp pile
    rw [visit]
    rfl
  | case2 p rest ih =>
    obtain ⟨s, spots, rfl, rfl, rfl⟩ := List.map_eq_cons_iff.mp pile
    obtain ⟨here, later⟩ := List.forall_mem_cons.mp stand
    have next : (placed root s).children ++ spots.map (placed root) = (s.children ++ spots).map (placed root) := by
      rw [children_placed here, List.map_append]
    have below := ih (s.children ++ spots) (by
      rintro c member
      rcases List.mem_append.mp member with child | other
      · exact here.child child
      · exact later c other) next.symm
    rw [visit, below, List.flatMap_cons, Walk.spots_eq, List.flatMap_append]
    rfl

/-- The places that the visit of a tree comes to. -/
theorem visit_eq (root : Node) :
    visit [⟨none, root⟩] = (functionWalk.passing.spots ⟨[], root⟩).map (placed root) := by
  have all := visit_placed root [⟨[], root⟩] fun s member => by
    rw [List.mem_singleton.mp member]
    rfl
  rwa [List.flatMap_singleton] at all

theorem functions_eq (root : Node) :
    functions root = (functionWalk.spots ⟨[], root⟩).map (placed root) := by
  rw [functions, visit_eq, List.filter_map, functionWalk.spots_eq_filter]
  rfl

theorem statementsOf_eq (n : Node) :
    statementsOf n = if containerTypes.contains n.type then statementsIn n.children else [n] := by
  cases n
  rw [statementsOf]

theorem statementsIn_eq (ns : List Node) :
    statementsIn ns = ns.flatMap fun n => if n.named then statementsOf n else [] := by
  induction ns with
  | nil => rfl
  | cons n ns ih => rw [statementsIn, ih, List.flatMap_cons]

def statements (body : Spot) : List Spot := body.children.flatMap statementWalk.spots

theorem map_node_spots (s : Spot) :
    (statementWalk.spots s).map (·.node) = if s.node.named then statementsOf s.node else [] := by
  induction s using Spot.induction with
  | step s ih =>
    rw [Walk.spots_eq, List.map_append, statementsOf_eq, statementsIn_eq, ← Spot.map_node_flatMap ih]
    have lists : statementWalk.lists s.node = (s.node.named && !containerTypes.contains s.node.type) := rfl
    have enters : statementWalk.enters s.node = (s.node.named && containerTypes.contains s.node.type) := rfl
    rw [lists, enters]
    cases s.node.named <;> cases containerTypes.contains s.node.type <;> simp

theorem bodyStatements_eq (body : Spot) : bodyStatements body.node = (statements body).map (·.node) := by
  rw [bodyStatements, statementsIn_eq, statements]
  exact (Spot.map_node_flatMap fun c _ => map_node_spots c).symm

theorem pairwise_statements (body : Spot) : (statements body).Pairwise (·.place.Before ·.place) :=
  Walk.pairwise_flatMap_spots body fun c _ => Walk.pairwise_spots statementWalk c

/-- No function-like node is the body of one. -/
def BodiesApart (root : Node) : Prop :=
  ∀ f ∈ root.preorder, isFunction f = true → ∀ body ∈ f.child? "body", isFunction body = false

structure IsBody (root : Node) (f body : Spot) : Prop where
  stands : f.StandsIn root
  functionLike : isFunction f.node = true
  body : f.child? "body" = some body

theorem IsBody.place {f body : Spot} (b : IsBody root f body) : ∃ i, body.place = i :: f.place := by
  obtain ⟨i, place, -⟩ := Spot.mem_children.mp (Spot.mem_children_of_child? b.body)
  exact ⟨i, place⟩

theorem IsBody.body_stands {f body : Spot} (b : IsBody root f body) : body.StandsIn root :=
  b.stands.child (Spot.mem_children_of_child? b.body)

theorem not_enters_of_isFunction {n : Node} (function : isFunction n = true) : statementWalk.enters n = false := by
  have apart : ∀ type ∈ functionTypes, containerTypes.contains type = false := by decide
  simp only [isFunction, Bool.and_eq_true, List.contains_iff_mem] at function
  change (n.named && containerTypes.contains n.type) = false
  rw [apart n.type function.2, Bool.and_false]

/-- The way from a body to its statements passes no function. -/
theorem IsBody.no_function_under (apart : BodiesApart root) {f body : Spot} (b : IsBody root f body) {p : Place}
    {n : Node} (under : statementWalk.Under root body.place p) (found : root.at? p = some n) :
    isFunction n = false := by
  cases under with
  | top =>
    obtain rfl := Option.some.inj (b.body_stands.symm.trans found)
    have child : f.node.child? "body" = some body.node := by rw [← Spot.map_node_child?, b.body, Option.map_some]
    exact apart f.node (Node.mem_preorder_of_at? b.stands) b.functionLike _ child
  | entered _ same enters =>
    obtain rfl := Option.some.inj (same.symm.trans found)
    refine Bool.eq_false_iff.mpr fun function => ?_
    rw [not_enters_of_isFunction function] at enters
    exact Bool.false_ne_true enters

variable {f g body other : Spot}

theorem IsBody.not_under_owner (apart : BodiesApart root) (b : IsBody root f body) (c : IsBody root g other) :
    ¬statementWalk.Under root body.place g.place := by
  intro under
  have plain := b.no_function_under apart under c.stands
  rw [c.functionLike] at plain
  exact Bool.false_ne_true plain.symm

theorem IsBody.eq_of_under (apart : BodiesApart root) (b : IsBody root f body) (c : IsBody root g other)
    (under : statementWalk.Under root body.place other.place) : f.place = g.place := by
  obtain ⟨i, place⟩ := b.place
  obtain ⟨j, otherPlace⟩ := c.place
  rw [otherPlace] at under
  generalize at_ : j :: g.place = p at under
  cases under with
  | top => exact (List.cons.inj (at_.trans place)).2.symm
  | entered above _ _ =>
    obtain ⟨rfl, rfl⟩ := List.cons.inj at_
    exact absurd above (b.not_under_owner apart c)

/-- A place is reached from the body of one function only. -/
theorem IsBody.unique (apart : BodiesApart root) (b : IsBody root f body) (c : IsBody root g other) {p : Place}
    (left : statementWalk.Under root body.place p) (right : statementWalk.Under root other.place p) :
    f.place = g.place := by
  rcases left.compare right with under | under
  · exact b.eq_of_under apart c under
  · exact (c.eq_of_under apart b under).symm

end ChangeLens.ControlFlow
