import ChangeLens.Declaration
import ChangeLens.Syntax.Node
import ChangeLens.Text.Blank
import ChangeLens.Text.Split

/-! How the names that a top-level node declares are found in it. Most grammars keep the name in a field of
its own; the rules here are for nodes that declare several names, hide the name below other nodes, or have
no better name than their text. -/
namespace ChangeLens

/-- A name found in a node. A kind found with it goes before the kind of the node. -/
structure Found where
  name : String
  kind : Option Kind := none
  deriving DecidableEq

inductive Naming where
  /-- The whole text is the name. -/
  | wholeText
  /-- The name field; a node without one declares nothing. -/
  | nameOrSkip
  | nameOrAnonymous
  /-- Groups such as `var (a, b = 1, 2; c int)`: the names of all specs, those in a list of specs after
  those that stand alone. -/
  | specGroup (spec : String) (list : Option String)
  /-- Declarators of variables, where a function as value makes a function. -/
  | valueDeclarators
  | importSource
  | exported
  | moduleExports
  /-- The left side of an assignment that is a statement. -/
  | assignedFirst
  | assigned
  /-- A method with its receiver in front, in brackets. -/
  | receiverMethod
  | typeSpecs
  | implementation
  | namedDeclarators
  /-- The innermost declarator of a function definition. -/
  | functionDeclarator
  | declarators
  | typedefs
  /-- What a template wraps. -/
  | template
  /-- Calls that load another file. -/
  | loadCall
  /-- The first element of a type that has a name. -/
  | firstElement (type : String)
  | nestedDeclarators
  deriving DecidableEq

namespace Naming

/-- Nodes whose value makes the variable a function. -/
def functionValueTypes : List String :=
  ["arrow_function", "function", "function_expression", "generator_function"]

def loadMethods : List String := ["require", "require_relative", "load"]

/-- An export that declares no name is called by this many characters of its text. -/
def exportNameLength : Nat := 60

def named (name : String) : Found := ⟨name, none⟩

def nameOrAnonymousIn (n : Node) : String := (n.someTextAt? "name").getD anonymous

def nameOf (n : Node) : Option String :=
  match n.someTextAt? "name" with
  | some name => some name
  | none => (n.children.find? fun c => ["identifier", "name", "type_identifier"].contains c.type).map (·.text)

def inSpecGroup (spec : String) (list : Option String) (n : Node) : List Found :=
  let listed := match list with
    | some list => (n.childrenOfType [list]).flatMap (·.childrenOfType [spec])
    | none => []
  (n.childrenOfType [spec] ++ listed).flatMap fun s => (s.childrenAt "name").map fun name => named name.text

def inValueDeclarators (n : Node) : List Found :=
  (n.childrenOfType ["variable_declarator"]).map fun d =>
    let isFunction := ((d.child? "value").map fun v => functionValueTypes.contains v.type).getD false
    ⟨(d.someTextAt? "name").getD "<unknown>", some (if isFunction then .function else .binding)⟩

/-- The name of the exported declaration, the names of exported variables, or the beginning of the text. -/
def inExport (n : Node) : List Found :=
  let beginning := [named (.ofList (n.text.toList.take exportNameLength))]
  match n.child? "declaration" with
  | none => beginning
  | some d =>
    match d.someTextAt? "name" with
    | some name => [named name]
    | none =>
      let names :=
        if ["lexical_declaration", "variable_declaration"].contains d.type
        then (inValueDeclarators d).map fun found => named found.name else []
      if names.isEmpty then beginning else names

def inModuleExports (n : Node) : List Found :=
  match n.children.head? with
  | some e =>
    if e.type == "assignment_expression" && Text.startsWith "module.exports" ((e.textAt? "left").getD "")
    then [named "module.exports"] else []
  | none => []

def inAssigned (n : Node) : List Found := ((n.someTextAt? "left").map named).toList

def inAssignedFirst (n : Node) : List Found :=
  match n.children.head? with
  | some e => if e.type == "assignment" then inAssigned e else []
  | none => []

def receiverOf (n : Node) : String :=
  let cs := Text.trimChars ((n.textAt? "receiver").getD "").toList
  if cs.head? == some '(' && cs.getLast? == some ')'
  then .ofList (Text.trimChars ((cs.drop 1).dropLast)) else .ofList cs

def inReceiverMethod (n : Node) : List Found :=
  let receiver := receiverOf n
  let name := nameOrAnonymousIn n
  [named (if receiver.isEmpty then name else "(" ++ receiver ++ ")." ++ name)]

def inImplementation (n : Node) : List Found :=
  let type := (n.someTextAt? "type").getD anonymous
  [named (match n.someTextAt? "trait" with
    | some trait => trait ++ " for " ++ type
    | none => "impl " ++ type)]

def declaratorName (d : Node) : String := (d.innermost "declarator").text

def declaresFunction (d : Node) : Bool := (d.chain "declarator").any (·.type == "function_declarator")

def inFunctionDeclarator (n : Node) : List Found :=
  ((n.child? "declarator").map fun d => named (declaratorName d)).toList

def inDeclarators (n : Node) : List Found :=
  (n.childrenAt "declarator").filterMap fun d =>
    if (declaratorName d).isEmpty then none
    else some ⟨declaratorName d, if declaresFunction d then some .function else none⟩

/-- The first child that a template can wrap decides, also when it declares nothing. -/
def inTemplate (n : Node) : List Found :=
  let wrapped := ["function_definition", "class_specifier", "struct_specifier", "declaration"]
  match n.children.find? (wrapped.contains ·.type) with
  | none => []
  | some c =>
    if c.type == "function_definition" then inFunctionDeclarator c
    else if c.type == "declaration" then inDeclarators c
    else ((c.someTextAt? "name").map fun name => ⟨name, some .classLike⟩).toList

def inLoadCall (n : Node) : List Found :=
  if (n.child? "receiver").isSome then []
  else match n.textAt? "method" with
    | some method => if loadMethods.contains method then [named n.text] else []
    | none => []

def elementName (n : Node) : String :=
  match (nameOf n).filter (!·.isEmpty) with
  | some name => name
  | none => (n.children.head?.map (·.text)).getD ""

def inFirstElement (type : String) (n : Node) : List Found :=
  (((n.childrenOfType [type]).map elementName).find? (!·.isEmpty) |>.map named).toList

def inNestedDeclarators (n : Node) : List Found :=
  (n.childrenOfType ["variable_declaration"]).flatMap fun d =>
    (d.childrenOfType ["variable_declarator"]).filterMap fun v =>
      ((nameOf v).filter (!·.isEmpty)).map named

/-- The names that a node declares under a rule, in the order of its text. -/
def find (n : Node) : Naming → List Found
  | wholeText => [named n.text]
  | nameOrSkip => ((n.someTextAt? "name").map named).toList
  | nameOrAnonymous => [named (nameOrAnonymousIn n)]
  | specGroup spec list => inSpecGroup spec list n
  | valueDeclarators => inValueDeclarators n
  | importSource => [named ((n.someTextAt? "source").getD n.text)]
  | exported => inExport n
  | moduleExports => inModuleExports n
  | assignedFirst => inAssignedFirst n
  | assigned => inAssigned n
  | receiverMethod => inReceiverMethod n
  | typeSpecs => (n.childrenOfType ["type_spec", "type_alias"]).map fun s => named (nameOrAnonymousIn s)
  | implementation => inImplementation n
  | namedDeclarators => (n.childrenAt "declarator").filterMap fun d => (d.someTextAt? "name").map named
  | functionDeclarator => inFunctionDeclarator n
  | declarators => inDeclarators n
  | typedefs => (n.childrenAt "declarator").map fun d => named (declaratorName d)
  | template => inTemplate n
  | loadCall => inLoadCall n
  | firstElement type => inFirstElement type n
  | nestedDeclarators => inNestedDeclarators n

end Naming
end ChangeLens
