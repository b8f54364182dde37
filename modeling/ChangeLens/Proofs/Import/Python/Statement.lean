import ChangeLens.Import.Clause
import ChangeLens.Proofs.Import.Layout
import ChangeLens.Text.Letter

/-! Import statements of Python as they are written, and their trees. A statement may go over several lines within
brackets; no other stands on its lines. -/
namespace ChangeLens.Import.Python

open Text

def inModule (c : Char) : Bool := isWordChar c || c == '.'

/-- The module after `from`; dots before it lead up from the file. `__future__` is none. -/
structure Module where
  chars : List Char
  nonempty : chars ≠ []
  inside : ∀ c ∈ chars, inModule c = true
  notFuture : chars ≠ "__future__".toList

def Module.text (m : Module) : String := .ofList m.chars

/-- What a statement takes from a module. -/
inductive Taken where
  | inLine (first : Listed) (others : List Listed)
  | inBrackets (list : NameList)
  | all

inductive Statement where
  /-- `from a.b import c, d as e` -/
  | takes (m : Module) (taken : Taken)
  /-- `import a.b, c as d` -/
  | loads (first : Listed) (others : List Listed)

def Taken.symbols : Taken → List String
  | inLine first others => (NameList.inLine first others).names
  | inBrackets list => list.names
  | all => ["*"]

def Statement.imports : Statement → List Import
  | takes m taken => [⟨m.text, taken.symbols⟩]
  | loads first others => (NameList.inLine first others).names.map fun module => ⟨module, []⟩

def Taken.chars : Taken → List Char
  | inLine first others => (NameList.inLine first others).chars
  | inBrackets list => ['('] ++ (list.chars ++ [')'])
  | all => ['*']

def taking (m : Module) : List Char := ['f', 'r', 'o', 'm', ' '] ++ (m.chars ++ " import ".toList)

def loading : List Char := ['i', 'm', 'p', 'o', 'r', 't', ' ']

def Statement.chars : Statement → List Char
  | takes m taken => taking m ++ taken.chars
  | loads first others => loading ++ (NameList.inLine first others).chars

open Markup

def dottedMarkup (field : Option String) (cs : List Char) : Markup :=
  .node "dotted_name" true field
    ([token "."].intercalate ((cs.splitOn '.').map fun part => [leaf "identifier" none part]))

def belowMarkup : List Char → List Markup
  | [] => []
  | c :: cs => [dottedMarkup none (c :: cs)]

def Module.markup (m : Module) : Markup :=
  if m.chars.head? = some '.' then
    .node "relative_import" true (some "module_name")
      (leaf "import_prefix" none (m.chars.takeWhile (· == '.')) :: belowMarkup (m.chars.dropWhile (· == '.')))
  else dottedMarkup (some "module_name") m.chars

def itemMarkup (i : Item) : List Markup :=
  [.text i.before.chars,
    match i.alias? with
    | none => dottedMarkup (some "name") i.name.chars
    | some a =>
      .node "aliased_import" true (some "name") [dottedMarkup (some "name") i.name.chars, .text a.before.chars,
        token "as", .text a.after.chars, leaf "identifier" (some "alias") a.name.chars],
    .text i.after.chars]

def Taken.markup : Taken → List Markup
  | inLine first others => listMarkup itemMarkup (.inLine first others)
  | inBrackets list => [token "("] ++ (listMarkup itemMarkup list ++ [token ")"])
  | all => [leaf "wildcard_import" none ['*']]

def Statement.markup : Statement → Markup
  | takes m taken =>
    .node "import_from_statement" true none
      ([token "from", .text [' '], m.markup, .text [' '], token "import", .text [' ']] ++ taken.markup)
  | loads first others =>
    .node "import_statement" true none
      ([token "import", .text [' ']] ++ listMarkup itemMarkup (.inLine first others))

theorem chars_dottedMarkup (field : Option String) (cs : List Char) : (dottedMarkup field cs).chars = cs := by
  simp [dottedMarkup, charsOf_intercalate, Function.comp_def]

theorem charsOf_belowMarkup (cs : List Char) : charsOf (belowMarkup cs) = cs := by
  cases cs with
  | nil => rfl
  | cons c cs => simp [belowMarkup, chars_dottedMarkup]

theorem Module.chars_markup (m : Module) : m.markup.chars = m.chars := by
  unfold Module.markup
  by_cases relative : m.chars.head? = some '.'
  · rw [if_pos relative, chars_node, charsOf_cons, chars_leaf, charsOf_belowMarkup, List.takeWhile_append_dropWhile]
  · rw [if_neg relative, chars_dottedMarkup]

theorem charsOf_itemMarkup (i : Item) : charsOf (itemMarkup i) = i.chars := by
  unfold itemMarkup Item.chars Item.core
  cases i.alias? with
  | none => simp [chars_dottedMarkup]
  | some a => simp [Alias.chars, chars_dottedMarkup]

theorem Taken.charsOf_markup (t : Taken) : charsOf t.markup = t.chars := by
  cases t with
  | inLine first others => exact charsOf_listMarkup charsOf_itemMarkup _
  | inBrackets list => simp [Taken.markup, Taken.chars, charsOf_listMarkup charsOf_itemMarkup]
  | all => simp [Taken.markup, Taken.chars]

theorem Statement.chars_markup (s : Statement) : s.markup.chars = s.chars := by
  cases s with
  | takes m taken => simp [Statement.markup, Statement.chars, taking, m.chars_markup, taken.charsOf_markup]
  | loads first others => simp [Statement.markup, Statement.chars, loading, charsOf_listMarkup charsOf_itemMarkup]

end ChangeLens.Import.Python
