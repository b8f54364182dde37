import ChangeLens.Proofs.Import.Layout

/-! Import statements of ECMAScript as they are written, and their trees. Each statement stands on lines of its own and
ends in a semicolon. -/
namespace ChangeLens.Import.Ecmascript

open Text

structure Identifier extends Word where
  starts : ∀ c ∈ chars.head?, isIdentifierStart c = true
  dotless : '.' ∉ chars

/-- In first place `type` would not be a name. -/
structure DefaultName extends Identifier where
  notType : chars ≠ "type".toList

/-- What a statement takes from a file by name: some names in braces, or all under one name. -/
inductive Group where
  | names (list : NameList)
  | all (name : Identifier)

inductive Clause where
  | default (name : DefaultName)
  | group (first : Option DefaultName) (g : Group)

def isMark (c : Char) : Bool := c == '\'' || c == '"'

structure Source where
  quote : Char
  isMark : isMark quote = true
  specifier : List Char
  nonempty : specifier ≠ []
  inside : ∀ c ∈ specifier, Ecmascript.isMark c = false ∧ c ≠ '\u0060' ∧ c ≠ '\n'

inductive Statement where
  /-- `import a, {b, c as d} from 'f';` -/
  | imports (clause : Clause) (source : Source)
  /-- `import 'f';` -/
  | runs (source : Source)
  /-- `export {a, b as c} from 'f';` -/
  | exports (list : NameList) (source : Source)
  /-- `export * from 'f';` -/
  | exportsAll (source : Source)
  /-- `const a = require('f');` -/
  | requires (name : Identifier) (source : Source)

def Group.symbols : Group → List String
  | names list => list.names
  | all name => ["* as " ++ name.text]

def Clause.symbols : Clause → List String
  | default name => [name.text]
  | group first g => (first.map (·.text)).toList ++ g.symbols

namespace Statement

def source : Statement → Source
  | imports _ s | runs s | exports _ s | exportsAll s | requires _ s => s

def specifier (s : Statement) : String := .ofList s.source.specifier

def symbols : Statement → List String
  | imports clause _ => clause.symbols
  | _ => []

/-- The names that it only passes on. -/
def passedOn : Statement → List String
  | exports list _ => list.names
  | _ => []

/-- The name that it gives to what a call returns. -/
def bound : Statement → List String
  | requires name _ => [name.text]
  | _ => []

end Statement

def braced (list : NameList) : List Char := ['{'] ++ (list.chars ++ ['}'])

def Group.chars : Group → List Char
  | names list => braced list
  | all name => ['*'] ++ (" as ".toList ++ name.chars)

def front : Option DefaultName → List Char
  | none => []
  | some name => name.chars ++ [',', ' ']

def Clause.chars : Clause → List Char
  | default name => name.chars
  | group first g => front first ++ g.chars

def Source.literal (s : Source) : List Char := s.quote :: (s.specifier ++ [s.quote])

def importing : List Char := ['i', 'm', 'p', 'o', 'r', 't']

def exporting : List Char := ['e', 'x', 'p', 'o', 'r', 't']

def calling : List Char := ['r', 'e', 'q', 'u', 'i', 'r', 'e', '(']

/-- What binds a name to the value that follows. -/
def binding (name : Identifier) : List Char :=
  ['c', 'o', 'n', 's', 't', ' '] ++ (name.chars ++ " = ".toList)

def named (keyword clause : List Char) : List Char := keyword ++ (' ' :: (clause ++ " from ".toList))

namespace Statement

def lead : Statement → List Char
  | imports clause _ => named importing clause.chars
  | runs _ => importing ++ [' ']
  | exports list _ => named exporting (braced list)
  | exportsAll _ => named exporting ['*']
  | requires name _ => binding name ++ calling

def ending : Statement → List Char
  | requires .. => [')', ';']
  | _ => [';']

def chars (s : Statement) : List Char := s.lead ++ (s.source.literal ++ s.ending)

end Statement

open Markup

def Source.markup (field : Option String) (s : Source) : Markup :=
  .node "string" true field
    [token (.singleton s.quote), leaf "string_fragment" none s.specifier, token (.singleton s.quote)]

def itemMarkup (type : String) (i : Item) : List Markup :=
  [.text i.before.chars,
    .node type true none (leaf "identifier" (some "name") i.name.chars ::
      match i.alias? with
      | none => []
      | some a =>
        [.text a.before.chars, token "as", .text a.after.chars, leaf "identifier" (some "alias") a.name.chars]),
    .text i.after.chars]

def bracedMarkup (type itemType : String) (l : NameList) : Markup :=
  .node type true none ([token "\x7b"] ++ (listMarkup (itemMarkup itemType) l ++ [token "\x7d"]))

def Group.markup : Group → Markup
  | names list => bracedMarkup "named_imports" "import_specifier" list
  | all name =>
    .node "namespace_import" true none
      [token "*", .text [' '], token "as", .text [' '], leaf "identifier" none name.chars]

def frontMarkup : Option DefaultName → List Markup
  | none => []
  | some name => [leaf "identifier" none name.chars, token ",", .text [' ']]

def Clause.markup : Clause → Markup
  | default name => .node "import_clause" true none [leaf "identifier" none name.chars]
  | group first g => .node "import_clause" true none (frontMarkup first ++ [g.markup])

def callMarkup (name : Identifier) (s : Source) : Markup :=
  .node "lexical_declaration" true none [.node "const" false (some "kind") [.text "const".toList], .text [' '],
    .node "variable_declarator" true none [leaf "identifier" (some "name") name.chars, .text [' '], token "=",
      .text [' '], .node "call_expression" true (some "value") [leaf "identifier" (some "function") "require".toList,
        .node "arguments" true (some "arguments") [token "(", s.markup none, token ")"]]],
    token ";"]

namespace Statement

def markup : Statement → Markup
  | imports clause source =>
    .node "import_statement" true none [token "import", .text [' '], clause.markup, .text [' '], token "from",
      .text [' '], source.markup (some "source"), token ";"]
  | runs source =>
    .node "import_statement" true none [token "import", .text [' '], source.markup (some "source"), token ";"]
  | exports list source =>
    .node "export_statement" true none [token "export", .text [' '],
      bracedMarkup "export_clause" "export_specifier" list, .text [' '], token "from", .text [' '],
      source.markup (some "source"), token ";"]
  | exportsAll source =>
    .node "export_statement" true none [token "export", .text [' '], token "*", .text [' '], token "from",
      .text [' '], source.markup (some "source"), token ";"]
  | requires name source => callMarkup name source

end Statement

theorem charsOf_itemMarkup (type : String) (i : Item) : charsOf (itemMarkup type i) = i.chars := by
  unfold itemMarkup Item.chars Item.core
  cases i.alias? with
  | none => simp
  | some a => simp [Alias.chars]

theorem chars_bracedMarkup (type itemType : String) (l : NameList) :
    (bracedMarkup type itemType l).chars = braced l := by
  simp [bracedMarkup, braced, charsOf_listMarkup (charsOf_itemMarkup itemType)]

theorem Source.chars_markup (field : Option String) (s : Source) : (s.markup field).chars = s.literal := by
  simp [Source.markup, Source.literal]

theorem Group.chars_markup (g : Group) : g.markup.chars = g.chars := by
  cases g with
  | names list => exact chars_bracedMarkup _ _ list
  | all name => simp [Group.markup, Group.chars]

theorem charsOf_frontMarkup (first : Option DefaultName) : charsOf (frontMarkup first) = front first := by
  cases first with
  | none => rfl
  | some name => simp [frontMarkup, front]

theorem Clause.chars_markup (c : Clause) : c.markup.chars = c.chars := by
  cases c with
  | default name => simp [Clause.markup, Clause.chars]
  | group first g => simp [Clause.markup, Clause.chars, g.chars_markup, charsOf_frontMarkup]

theorem Statement.chars_markup (s : Statement) : s.markup.chars = s.chars := by
  unfold Statement.chars
  cases s with
  | imports clause source =>
    simp [markup, lead, ending, Statement.source, named, importing, clause.chars_markup, source.chars_markup]
  | runs source => simp [markup, lead, ending, Statement.source, importing, source.chars_markup]
  | exports list source =>
    simp [markup, lead, ending, Statement.source, named, exporting, chars_bracedMarkup, source.chars_markup]
  | exportsAll source => simp [markup, lead, ending, Statement.source, named, exporting, source.chars_markup]
  | requires name source =>
    simp [markup, callMarkup, lead, ending, Statement.source, binding, calling, source.chars_markup]

end ChangeLens.Import.Ecmascript
