import ChangeLens.Import.Tree
import ChangeLens.Proofs.Import.Python.Scanned
import ChangeLens.Resolution

/-! Reading statements from their tree and scanning their text give the same imports in the same order. -/
namespace ChangeLens.Import.Python

open Markup

theorem nodes_dotted (field : Option String) (cs : List Char) (line : Nat) : ∃ children last,
    (dottedMarkup field cs).nodes line = [⟨"dotted_name", true, field, .ofList cs, line, last, children⟩] := by
  have text := chars_dottedMarkup field cs
  rw [dottedMarkup, chars_node] at text
  rw [dottedMarkup, nodes_node, text]
  exact ⟨_, _, rfl⟩

theorem nodes_module (m : Module) (line : Nat) : ∃ type children last, type ≠ "wildcard_import" ∧
    m.markup.nodes line = [⟨type, true, some "module_name", m.text, line, last, children⟩] := by
  have text := m.chars_markup
  unfold Module.markup at text ⊢
  by_cases relative : m.chars.head? = some '.'
  · rw [if_pos relative] at text ⊢
    rw [chars_node] at text
    rw [nodes_node, text]
    exact ⟨_, _, _, by decide, rfl⟩
  · rw [if_neg relative] at text ⊢
    obtain ⟨children, last, nodes⟩ := nodes_dotted (some "module_name") m.chars line
    exact ⟨_, _, _, by decide, nodes⟩

structure Names (n : Node) (name : String) : Prop where
  role : n.field = some "name"
  noStar : n.type ≠ "wildcard_import"
  imported : importedName n = name
  module : importedModule? n = some name

theorem names_of_dotted {n : Node} {name : String} (type : n.type = "dotted_name") (role : n.field = some "name")
    (text : n.text = name) (nonempty : name ≠ "") : Names n name where
  role := role
  noStar := by simp [type]
  imported := by simp [importedName, type, text]
  module := by simp [importedModule?, type, text, Option.filter, nonempty]

theorem names_of_aliased {n inner : Node} {others : List Node} {name : String} (type : n.type = "aliased_import")
    (role : n.field = some "name") (children : n.children = inner :: others) (innerRole : inner.field = some "name")
    (text : inner.text = name) (nonempty : name ≠ "") : Names n name where
  role := role
  noStar := by simp [type]
  imported := by
    simp [importedName, type, Node.someTextAt?, Node.textAt?, Node.child?, children, innerRole, text, Option.filter,
      nonempty]
  module := by
    simp [importedModule?, type, Node.textAt?, Node.child?, children, innerRole, text, Option.filter, nonempty]

theorem nodes_item (line : Nat) (i : Item) : ∃ n, nodesOf line (itemMarkup i) = [n] ∧ Names n i.name.text := by
  have nonempty : i.name.text ≠ "" := by simp [Word.text, i.name.nonempty]
  have padded (m : Markup) : nodesOf line [.text i.before.chars, m, .text i.after.chars] =
      m.nodes (line + i.before.chars.count '\n') := by simp
  obtain ⟨children, last, nodes⟩ := nodes_dotted (some "name") i.name.chars (line + i.before.chars.count '\n')
  unfold itemMarkup
  rw [padded]
  cases i.alias? with
  | none => exact ⟨_, nodes, names_of_dotted rfl rfl rfl nonempty⟩
  | some a =>
    dsimp only
    rw [nodes_node, nodesOf_cons, nodes]
    exact ⟨_, rfl, names_of_aliased rfl rfl rfl rfl rfl nonempty⟩

/-- What is read from the nodes of a list, if nothing is read from its commas. -/
theorem flatMap_list {read : Node → List β} {found : String → List β}
    (quiet : ∀ n, n.type = "," → n.field = none → read n = []) (each : ∀ n name, Names n name → read n = found name)
    (line : Nat) (l : NameList) :
    (nodesOf line (listMarkup itemMarkup l)).flatMap read = l.names.flatMap found := by
  have comma (line : Nat) : ((token ",").nodes line).flatMap read = [] := by simp [token, quiet]
  have item (line : Nat) (i : Item) : (nodesOf line (itemMarkup i)).flatMap read = found i.name.text := by
    obtain ⟨n, nodes, names⟩ := nodes_item line i
    rw [nodes, List.flatMap_singleton, each n _ names]
  rw [flatMap_nodesOf_listMarkup comma item, NameList.names, List.flatMap_map]

def takenNames (children : List Node) : List String :=
  (children.filter (·.field == some "name")).map importedName ++
    if children.any (·.type == "wildcard_import") then ["*"] else []

theorem ofPython_from {n : Node} (type : n.type = "import_from_statement") :
    ofPython n = ((n.someTextAt? "module_name").map fun source => ⟨source, takenNames n.children⟩).toList := by
  rw [ofPython, if_pos (by simp [type])]
  rfl

theorem takenNames_list (line : Nat) (l : NameList) :
    takenNames (nodesOf line (listMarkup itemMarkup l)) = l.names := by
  have names : (nodesOf line (listMarkup itemMarkup l)).flatMap
      (fun n => if n.field == some "name" then (some (importedName n)).toList else []) =
        l.names.flatMap fun name => [name] := by
    apply flatMap_list
    · intro n _ role
      simp [role]
    · intro n name names
      simp [names.role, names.imported]
  have stars : (nodesOf line (listMarkup itemMarkup l)).flatMap
      (fun n => if n.type == "wildcard_import" then [()] else []) = l.names.flatMap fun _ => [] := by
    apply flatMap_list
    · intro n type _
      simp [type]
    · intro n name names
      simp [names.noStar]
  have noStar : (nodesOf line (listMarkup itemMarkup l)).any (·.type == "wildcard_import") = false := by
    rw [List.any_eq_false]
    intro n member star
    have found := List.flatMap_eq_nil_iff.mp (stars.trans (List.flatMap_eq_nil_iff.mpr fun _ _ => rfl)) n member
    simp [star] at found
  rw [takenNames, noStar, ← List.filterMap_eq_map, filterMap_filter_eq_flatMap]
  exact (List.append_nil _).trans (names.trans (List.flatMap_singleton' _))

theorem loadedModules_list (line : Nat) (l : NameList) :
    ((nodesOf line (listMarkup itemMarkup l)).filter (·.field == some "name")).filterMap
      (fun n => (importedModule? n).map fun source => (⟨source, []⟩ : Import)) = l.names.map (⟨·, []⟩) := by
  have each : (nodesOf line (listMarkup itemMarkup l)).flatMap (fun n => if n.field == some "name" then
      ((importedModule? n).map fun source => (⟨source, []⟩ : Import)).toList else []) =
        l.names.flatMap fun name => [⟨name, []⟩] := by
    apply flatMap_list
    · intro n _ role
      simp [role]
    · intro n name names
      simp [names.role, names.module]
  rw [filterMap_filter_eq_flatMap]
  exact each.trans List.map_eq_flatMap.symm

theorem takenNames_markup (taken : Taken) (line : Nat) : takenNames (nodesOf line taken.markup) = taken.symbols := by
  cases taken with
  | inLine first others => exact takenNames_list line _
  | inBrackets list =>
    have names := takenNames_list line list
    simpa [Taken.markup, Taken.symbols, nodesOf_append, token, takenNames] using names
  | all => simp [Taken.markup, takenNames, leaf, Taken.symbols]

namespace Statement

theorem flatMap_nodes (line : Nat) (s : Statement) : (s.markup.nodes line).flatMap ofPython = s.imports := by
  cases s with
  | takes m taken =>
    obtain ⟨type, children, last, noStar, nodes⟩ := nodes_module m line
    have symbols := takenNames_markup taken (line + m.chars.count '\n')
    have nonempty : m.text ≠ "" := by simp [Module.text, m.nonempty]
    simpa [markup, token, ofPython_from, Node.someTextAt?, Node.textAt?, Node.child?, nodes, m.chars_markup, takenNames,
      noStar, Option.filter, nonempty, imports] using symbols
  | loads first others =>
    simp [markup, token, ofPython, Node.childrenAt, loadedModules_list, imports]

def text (ended : Bool) (statements : List Statement) : String := .ofList (written chars ended statements)

def tree (ended : Bool) (statements : List Statement) : Node := treeOf markup "module" ended statements

theorem ofRoot_tree (ended : Bool) (statements : List Statement) :
    ofRoot "python" (tree ended statements) = statements.flatMap imports := by
  have read := flatMap_children_treeOf flatMap_nodes "module" ended statements
  rw [ofRoot, if_neg (by decide), if_pos (beq_self_eq_true _), tree, read]

/-- For any statements, each on lines of its own, scanning the text and reading its tree give what the statements import
in their order. -/
theorem scan_and_tree_agree (path : String) (ended : Bool) (statements : List Statement) :
    (tree ended statements).text = text ended statements ∧
    ofText (Resolution.familyOf "python" path) (text ended statements) = statements.flatMap imports ∧
    ofRoot "python" (tree ended statements) = statements.flatMap imports := by
  refine ⟨?_, ?_, ?_⟩
  · exact text_treeOf chars_markup "module" ended statements
  · exact ofText_written ended statements
  · exact ofRoot_tree ended statements

example : text false [.takes ⟨['.'], by decide, List.all_eq_true.mp rfl, by decide⟩ .all,
    .loads ⟨⟨['a', '.', 'b'], by decide, List.all_eq_true.mp rfl, by decide⟩, none⟩ []] =
      "from . import *\nimport a.b" := by decide

end Statement
end ChangeLens.Import.Python
