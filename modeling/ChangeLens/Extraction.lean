import ChangeLens.Toolchain

/-! Declarations of a source text: what the direct children of the root declare, in their order. What stands
inside a declaration belongs to its text and is not listed. -/
namespace ChangeLens.Extraction

/-- The declaration inside a wrapper, or the node itself. -/
def unwrap (l : Language) (n : Node) : Node :=
  match (l.wrappers.lookup n.type).filter (!·.isEmpty) with
  | some field => (n.child? field).getD n
  | none => n

/-- What a top-level node declares in a language with a table. Text and line are those of the wrapper. -/
def declared (l : Language) (n : Node) : List Declaration :=
  let target := unwrap l n
  match l.rule? target.type with
  | none => []
  | some rule =>
    match rule.naming with
    | some naming =>
      (naming.find target).map fun found => ⟨found.name, found.kind.getD rule.kind, n.text, n.startLine⟩
    | none => [⟨(target.someTextAt? "name").getD anonymous, rule.kind, n.text, n.startLine⟩]

/-- Without a table any top-level node with a name is a declaration. -/
def declaredUntabled (n : Node) : List Declaration :=
  ((n.someTextAt? "name").map fun name => ⟨name, .other, n.text, n.startLine⟩).toList

def ofRoot (l : Option Language) (root : Node) : List Declaration :=
  root.children.flatMap ((l.map declared).getD declaredUntabled)

/-- The declarations of a text. There are none in a blank text, nor in one that cannot be parsed. -/
def ofSource (t : Toolchain) (source : Option String) (language : String) : List Declaration :=
  match source.filter (!Text.allBlank ·) with
  | none => []
  | some text =>
    match t.parse language text with
    | .tree root => ofRoot (t.registry.get? language) root
    | _ => []

/-- A file before and after a change; either side may be missing. -/
structure Versions where
  path : String
  language : Option String := none
  oldText : Option String := none
  newText : Option String := none

def ofVersions (t : Toolchain) (v : Versions) : List Declaration × List Declaration :=
  match (v.language.filter (!·.isEmpty)).or (t.languageFor? v.path) with
  | none => ([], [])
  | some language => (ofSource t v.oldText language, ofSource t v.newText language)

end ChangeLens.Extraction
