/-! Concrete syntax trees as the analyses see them. A node carries its own text and lines, so nothing below
depends on where in the file it stands. -/
namespace ChangeLens

/-- A node of a syntax tree. Nodes that the grammar leaves unnamed are tokens such as brackets and keywords;
`field` is the role that the parent gives to the node. -/
structure Node where
  type : String
  named : Bool
  field : Option String
  text : String
  startLine : Nat
  endLine : Nat
  children : List Node

namespace Node

def child? (n : Node) (field : String) : Option Node := n.children.find? (·.field == some field)

def childrenAt (n : Node) (field : String) : List Node := n.children.filter (·.field == some field)

def childrenOfType (n : Node) (types : List String) : List Node :=
  n.children.filter (types.contains ·.type)

def namedChildren (n : Node) : List Node := n.children.filter (·.named)

/-- The text of the first child in the role `field`; it may be empty. -/
def textAt? (n : Node) (field : String) : Option String := (n.child? field).map (·.text)

/-- As `textAt?`, but an empty text counts as none. -/
def someTextAt? (n : Node) (field : String) : Option String := (n.textAt? field).filter (!·.isEmpty)

mutual

/-- The node, its child in the role `field`, that child's child in the same role, and so on. -/
def chain (field : String) : Node → List Node
  | n@⟨_, _, _, _, _, _, children⟩ => n :: chainBelow field children

def chainBelow (field : String) : List Node → List Node
  | [] => []
  | c :: cs => if c.field == some field then chain field c else chainBelow field cs

end

def innermost (field : String) (n : Node) : Node := (n.chain field).getLast?.getD n

mutual

/-- The nodes of a tree in document order: a node stands before all below it. -/
def preorder : Node → List Node
  | n@⟨_, _, _, _, _, _, children⟩ => n :: preorderAll children

def preorderAll : List Node → List Node
  | [] => []
  | n :: ns => preorder n ++ preorderAll ns

end

mutual

def size : Node → Nat
  | ⟨_, _, _, _, _, _, children⟩ => 1 + sizeAll children

def sizeAll : List Node → Nat
  | [] => 0
  | n :: ns => size n + sizeAll ns

end

theorem size_eq (n : Node) : n.size = 1 + sizeAll n.children := by
  cases n; rfl

theorem sizeAll_append (xs ys : List Node) : sizeAll (xs ++ ys) = sizeAll xs + sizeAll ys := by
  induction xs with
  | nil => exact (Nat.zero_add _).symm
  | cons x xs ih => simp only [List.cons_append, sizeAll, ih, Nat.add_assoc]

end Node

/-- What a parser makes of a text: nothing, a tree that lacks its root, or a tree. -/
inductive Parse where
  | failed
  | rootless
  | tree (root : Node)

end ChangeLens
