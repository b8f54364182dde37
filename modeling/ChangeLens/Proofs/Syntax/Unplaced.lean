import ChangeLens.Proofs.Syntax.Place

/-! Trees without their lines. What a node has in a role, and what it has of a type, can be found in the tree
without lines just as well; the nodes that are found there lack their lines in turn. -/
namespace ChangeLens.Node

mutual

/-- The tree with its lines forgotten. Trees that agree in it are alike up to where they stand. -/
def unplaced : Node → Node
  | ⟨type, named, field, text, _, _, children⟩ => ⟨type, named, field, text, 0, 0, unplacedAll children⟩

def unplacedAll : List Node → List Node
  | [] => []
  | n :: ns => unplaced n :: unplacedAll ns

end

theorem unplacedAll_eq (ns : List Node) : unplacedAll ns = ns.map unplaced := by
  induction ns with
  | nil => rfl
  | cons n ns ih => rw [unplacedAll, ih, List.map_cons]

@[simp] theorem type_unplaced (n : Node) : n.unplaced.type = n.type := by cases n; rfl

@[simp] theorem field_unplaced (n : Node) : n.unplaced.field = n.field := by cases n; rfl

@[simp] theorem text_unplaced (n : Node) : n.unplaced.text = n.text := by cases n; rfl

@[simp] theorem startLine_unplaced (n : Node) : n.unplaced.startLine = 0 := by cases n; rfl

@[simp] theorem children_unplaced (n : Node) : n.unplaced.children = n.children.map unplaced := by
  cases n
  exact unplacedAll_eq _

@[simp] theorem child?_unplaced (n : Node) (field : String) :
    n.unplaced.child? field = (n.child? field).map unplaced := by
  have field_alike : (fun c : Node => c.field == some field) ∘ unplaced = fun c => c.field == some field :=
    funext fun c => by rw [Function.comp_apply, field_unplaced]
  rw [child?, children_unplaced, List.find?_map, field_alike, child?]

@[simp] theorem childrenAt_unplaced (n : Node) (field : String) :
    n.unplaced.childrenAt field = (n.childrenAt field).map unplaced := by
  simp [childrenAt, List.filter_map, Function.comp_def]

@[simp] theorem childrenOfType_unplaced (n : Node) (types : List String) :
    n.unplaced.childrenOfType types = (n.childrenOfType types).map unplaced := by
  simp [childrenOfType, List.filter_map, Function.comp_def]

@[simp] theorem textAt?_unplaced (n : Node) (field : String) : n.unplaced.textAt? field = n.textAt? field := by
  simp [textAt?, Function.comp_def]

@[simp] theorem someTextAt?_unplaced (n : Node) (field : String) :
    n.unplaced.someTextAt? field = n.someTextAt? field := by
  simp [someTextAt?]

theorem chainBelow_eq (field : String) (ns : List Node) :
    chainBelow field ns = ((ns.find? (·.field == some field)).map (chain field)).getD [] := by
  induction ns with
  | nil => rfl
  | cons n ns ih =>
    rw [chainBelow, List.find?_cons, ih]
    split <;> simp [*]

theorem chain_eq (field : String) (n : Node) :
    n.chain field = n :: ((n.child? field).map (chain field)).getD [] := by
  cases n
  rw [chain, chainBelow_eq]
  rfl

@[simp] theorem chain_unplaced (field : String) (n : Node) :
    n.unplaced.chain field = (n.chain field).map unplaced := by
  induction n using induction with
  | step n ih =>
    rw [chain_eq, chain_eq field n, child?_unplaced, List.map_cons]
    cases found : n.child? field with
    | none => rfl
    | some c => simp [ih c (List.mem_of_find?_eq_some found)]

@[simp] theorem innermost_unplaced (field : String) (n : Node) :
    n.unplaced.innermost field = (n.innermost field).unplaced := by
  rw [innermost, innermost, chain_unplaced, List.getLast?_map, Option.getD_map]

end ChangeLens.Node
