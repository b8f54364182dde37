import ChangeLens.Declaration
import ChangeLens.Syntax.Node

/-! Function-like nodes of a tree, and what to call them. -/
namespace ChangeLens.ControlFlow

def functionTypes : List String := [
  "function_declaration", "function_definition", "generator_function_declaration", "method_definition",
  "method_declaration", "constructor_declaration", "function_item", "arrow_function", "function_expression",
  "function", "method", "singleton_method"]

/-- Keywords share the types of nodes, so an unnamed node is no function. -/
def isFunction (n : Node) : Bool := n.named && functionTypes.contains n.type

structure Placed where
  parent : Option Node
  node : Node

def Placed.children (p : Placed) : List Placed := p.node.children.map fun c => ⟨some p.node, c⟩

/-- The nodes still to be visited, in order, count as many as their trees have nodes. -/
def pending (stack : List Placed) : Nat := Node.sizeAll (stack.map (·.node))

theorem pending_cons (p : Placed) (stack : List Placed) : pending (p :: stack) = p.node.size + pending stack := rfl

theorem pending_children (p : Placed) : pending p.children = Node.sizeAll p.node.children := by
  simp [pending, Placed.children, Function.comp_def]

theorem pending_append (xs ys : List Placed) : pending (xs ++ ys) = pending xs + pending ys := by
  simp [pending, Node.sizeAll_append]

/-- Visits the nodes on a stack and all below them in document order, without recursion on the tree. -/
def visit : List Placed → List Placed
  | [] => []
  | p :: stack => p :: visit (p.children ++ stack)
termination_by stack => pending stack
decreasing_by
  have s := Node.size_eq p.node
  rw [pending_append, pending_children, pending_cons]
  omega

def functions (root : Node) : List Placed := (visit [⟨none, root⟩]).filter (isFunction ·.node)

/-- A function value is called by what it is bound to. -/
def boundName? (parent : Node) : Option String :=
  if parent.type == "variable_declarator" then parent.someTextAt? "name"
  else if ["assignment_expression", "pair"].contains parent.type then
    ((parent.child? "left").or (parent.child? "key")).map (·.text)
  else none

/-- The name of a function: its own, that of its innermost declarator, or that of what it is bound to. -/
def functionName (p : Placed) : String :=
  match p.node.someTextAt? "name" with
  | some name => name
  | none =>
    match p.node.child? "declarator" with
    | some d => (d.innermost "declarator").text
    | none => (p.parent.bind boundName?).getD anonymous

end ChangeLens.ControlFlow
