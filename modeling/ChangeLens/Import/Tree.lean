import ChangeLens.Import.Clause
import ChangeLens.Syntax.Node
import ChangeLens.Text.Blank

/-! Imports read from a syntax tree. Only statements at the top level count. -/
namespace ChangeLens.Import

def isQuote (c : Char) : Bool := c == '\'' || c == '"' || c == '\u0060'

def unquote (literal : String) : String :=
  .ofList (Text.trimWhile isQuote (Text.trimChars literal.toList))

/-- The file that a call `require("…")` loads, if the node is one. -/
def required? (value : Node) : Option String :=
  if value.type == "call_expression" && value.textAt? "function" == some "require" then
    ((value.child? "arguments").bind (·.namedChildren.head?)).bind fun first =>
      if ["string", "template_string"].contains first.type then some (unquote first.text) else none
  else none

/-- The names in one part of an import clause: a default name, names in braces, or a name for all. -/
def clausePartSymbols (part : Node) : List String :=
  if part.type == "identifier" then [part.text]
  else if part.type == "named_imports" then
    (part.childrenOfType ["import_specifier"]).filterMap (·.someTextAt? "name")
  else if part.type == "namespace_import" then
    (part.childrenOfType ["identifier"]).map fun name => "* as " ++ name.text
  else []

def statementSymbols (statement : Node) : List String :=
  statement.children.flatMap fun c =>
    if c.type == "identifier" then [c.text]
    else if c.type == "import_clause" then c.children.flatMap clausePartSymbols
    else []

def ofDeclarator (d : Node) : Option Import :=
  (((d.child? "value").bind required?).filter (!·.isEmpty)).map fun specifier =>
    ⟨specifier, (d.someTextAt? "name").toList⟩

def ofEcmascript (n : Node) : List Import :=
  if n.type == "import_statement" then
    ((n.someTextAt? "source").map fun source => ⟨unquote source, statementSymbols n⟩).toList
  else if n.type == "export_statement" then
    ((n.someTextAt? "source").map fun source => ⟨unquote source, []⟩).toList
  else if ["lexical_declaration", "variable_declaration"].contains n.type then
    (n.childrenOfType ["variable_declarator"]).filterMap ofDeclarator
  else if n.type == "expression_statement" then
    (((n.namedChildren.head?.bind required?).filter (!·.isEmpty)).map fun specifier => ⟨specifier, []⟩).toList
  else []

/-- The name that an import takes from a module; an alias does not count. -/
def importedName (n : Node) : String :=
  if n.type == "aliased_import" then (n.someTextAt? "name").getD n.text else n.text

def importedModule? (n : Node) : Option String :=
  (if n.type == "aliased_import" then n.textAt? "name" else some n.text).filter (!·.isEmpty)

def ofPython (n : Node) : List Import :=
  if n.type == "import_from_statement" then
    let names := (n.childrenAt "name").map importedName
    let star := if n.children.any (·.type == "wildcard_import") then ["*"] else []
    ((n.someTextAt? "module_name").map fun source => ⟨source, names ++ star⟩).toList
  else if n.type == "import_statement" then
    (n.childrenAt "name").filterMap fun name => (importedModule? name).map fun source => ⟨source, []⟩
  else []

/-- The imports of a tree, in a family of languages. Families without a rule here import nothing. -/
def ofRoot (family : String) (root : Node) : List Import :=
  if family == "ecmascript" then root.children.flatMap ofEcmascript
  else if family == "python" then root.children.flatMap ofPython
  else []

end ChangeLens.Import
