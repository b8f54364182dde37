import ChangeLens.ControlFlow.Exit
import ChangeLens.Sorted
import ChangeLens.Toolchain

/-! Notes on functions that a change touches: guards that leave the function early, and try blocks around
the changed lines. -/
namespace ChangeLens

inductive Pattern where
  | guard
  | tryCatch
  | custom (word : String)
  deriving DecidableEq

namespace Pattern

def word : Pattern → String
  | guard => "guard"
  | tryCatch => "try-catch"
  | custom word => word

def ofWord : String → Pattern
  | "guard" => guard
  | "try-catch" => tryCatch
  | word => custom word

end Pattern

structure Annotation where
  functionName : String
  line : Int
  pattern : Pattern
  description : String
  deriving DecidableEq

/-- The first index from `low` on, before `high`, at which the sorted `lines` reach `bound`; `high` if they
do not. -/
def firstReaching (lines : Array Int) (bound : Int) (low high : Nat) : Nat :=
  if _h : low < high then
    let middle := (low + high) / 2
    if lines.getD middle 0 < bound then firstReaching lines bound (middle + 1) high
    else firstReaching lines bound low middle
  else low
termination_by high - low

/-- Whether a line of the sorted `lines` lies between `start` and `stop`, both included. -/
def touches (start stop : Int) (lines : List Int) : Bool :=
  match lines[firstReaching lines.toArray start 0 lines.length]? with
  | some line => line ≤ stop
  | none => false

namespace ControlFlow

def ifTypes : List String := ["if_statement", "if_expression", "if", "unless"]
def tryTypes : List String := ["try_statement", "begin"]

def containerTypes : List String := ["statement_list", "block", "body_statement"]

mutual

def statementsOf : Node → List Node
  | n@⟨_, _, _, _, _, _, children⟩ => if containerTypes.contains n.type then statementsIn children else [n]

/-- The statements among some nodes. Tokens are none. -/
def statementsIn : List Node → List Node
  | [] => []
  | n :: ns => (if n.named then statementsOf n else []) ++ statementsIn ns

end

def bodyStatements (body : Node) : List Node := statementsIn body.children

/-- An `if` that stands as an expression statement counts as the statement. -/
def unwrapStatement (s : Node) : Node :=
  if s.type == "expression_statement" then
    match s.namedChildren.head? with
    | some inner => if ifTypes.contains inner.type then inner else s
    | none => s
  else s

/-- A `begin` is a try block only if it rescues something. -/
def isTry (n : Node) : Bool :=
  tryTypes.contains n.type && (n.type != "begin" || n.children.any (·.type == "rescue"))

/-- A condition within a budget of characters; what is cut off is shown by three dots. -/
def shorten (budget : Int) (condition : String) : String :=
  let cs := condition.toList
  if (cs.length : Int) > budget then .ofList (cs.take (budget - 3).toNat ++ ['.', '.', '.']) else condition

/-- What a guard does, if the node is one: its branch exits early and its condition has a text. -/
def describeGuard? (budget : Int) (n : Node) : Option String :=
  match (n.child? "consequence").or (n.child? "body") with
  | none => none
  | some branch =>
    if exitsEarly branch then
      (n.someTextAt? "condition").map fun condition => "returns/exits early if " ++ shorten budget condition
    else none

def annotateStatement (budget : Int) (lines : List Int) (name : String) (statement : Node) : Option Annotation :=
  let target := unwrapStatement statement
  if ifTypes.contains target.type then
    (describeGuard? budget target).map fun description => ⟨name, target.startLine, .guard, description⟩
  else if isTry target && touches target.startLine target.endLine lines then
    some ⟨name, target.startLine, .tryCatch, "operations wrapped in try-catch"⟩
  else none

def annotateFunction (budget : Int) (lines : List Int) (f : Placed) : List Annotation :=
  match f.node.child? "body" with
  | none => []
  | some body => (bodyStatements body).filterMap (annotateStatement budget lines (functionName f))

def annotateRoot (budget : Int) (lines : List Int) (root : Node) : List Annotation :=
  ((functions root).filter fun f => touches f.node.startLine f.node.endLine lines).flatMap
    (annotateFunction budget lines)

/-- The notes on a source text in which `changed` lines were changed. The one tree that cannot be walked is a tree
without a root, which has no notes: how deep a walk may go is left out. -/
def annotate (t : Toolchain) (budget : Int) (source : Option String) (language : String)
    (changed : List Int) : List Annotation :=
  let lines := sortDistinct (· ≤ ·) changed
  match source.filter (!Text.allBlank ·) with
  | none => []
  | some text =>
    if lines.isEmpty then []
    else match t.parse language text with
      | .tree root => annotateRoot budget lines root
      | _ => []

end ControlFlow
end ChangeLens
