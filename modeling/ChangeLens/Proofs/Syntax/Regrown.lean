import ChangeLens.Proofs.Syntax.Place

/-! Trees with other nodes below one place. What an observer sees of a node may depend on its outline and on what he
sees of its children. If he sees the same at the place where children were replaced, he sees the same everywhere above
it. -/
namespace ChangeLens.Node

def withChildren (n : Node) (children : List Node) : Node := { n with children }

def outline (n : Node) : Node := n.withChildren []

@[simp] theorem outline_withChildren (n : Node) (children : List Node) :
    (n.withChildren children).outline = n.outline := rfl

/-- The tree with other children at a place. To replace children of a node changes that node, and so the children of
the node above it. -/
def regrown (root : Node) : Place → List Node → Node
  | [], children => root.withChildren children
  | i :: up, children =>
    match root.at? up with
    | none => root
    | some above => root.regrown up (above.children.modify i (·.withChildren children))

theorem regrown_cons {root above : Node} {up : Place} (found : root.at? up = some above) (i : Nat)
    (children : List Node) :
    root.regrown (i :: up) children = root.regrown up (above.children.modify i (·.withChildren children)) := by
  simp [regrown, found]

variable {β : Type} {see : Node → β}

theorem map_modify_of_getElem? {ns : List Node} {i : Nat} {n : Node} {change : Node → Node} (here : ns[i]? = some n)
    (same : see (change n) = see n) : (ns.modify i change).map see = ns.map see := by
  apply List.ext_getElem?
  intro j
  rw [List.getElem?_map, List.getElem?_map, List.getElem?_modify]
  by_cases equal : i = j
  · simp [← equal, here, same]
  · simp [equal]

/-- What is seen of a place is handed on to the top. -/
theorem map_children_regrown (handed : ∀ (n : Node) (children : List Node), children.map see = n.children.map see →
    see (n.withChildren children) = see n) {root n : Node} {place : Place} (found : root.at? place = some n)
    {children : List Node} (same : children.map see = n.children.map see) :
    (root.regrown place children).children.map see = root.children.map see := by
  induction place generalizing n children with
  | nil =>
    obtain rfl := Option.some.inj found
    exact same
  | cons i up ih =>
    obtain ⟨above, foundAbove, here⟩ := at?_cons.mp found
    rw [regrown_cons foundAbove]
    exact ih foundAbove (map_modify_of_getElem? here (handed n children same))

end ChangeLens.Node
