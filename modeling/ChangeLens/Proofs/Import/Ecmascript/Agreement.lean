import ChangeLens.Import.Tree
import ChangeLens.Proofs.Import.Ecmascript.Scanned
import ChangeLens.Proofs.Import.Layout
import ChangeLens.Resolution

/-! Reading statements from their tree and scanning their text give the same files in the same order, and the same
names wherever a statement imports. -/
namespace ChangeLens.Import.Ecmascript

open Text Markup

theorem unquote_literal (source : Source) : unquote (.ofList source.literal) = .ofList source.specifier := by
  have mark := isMark_iff.mp source.isMark
  have solid : isBlank source.quote = false := by
    rcases mark with same | same <;> rw [same] <;> decide
  have quote : isQuote source.quote = true := by
    rcases mark with same | same <;> rw [same] <;> decide
  have inside : ∀ c ∈ source.specifier, isQuote c = false := by
    intro c member
    obtain ⟨notMark, notTick, -⟩ := source.inside c member
    simp only [isMark, Bool.or_eq_false_iff] at notMark
    simp [isQuote, notMark, notTick]
  have trimmed : trimChars source.literal = source.literal := by
    apply trimWhile_eq_self
    · intro c first
      obtain rfl := Option.some.inj first
      exact solid
    · intro c last
      rw [Source.literal, ← List.cons_append, List.getLast?_append] at last
      obtain rfl := Option.some.inj last
      exact solid
  have unquoted : trimWhile isQuote ([source.quote] ++ (source.specifier ++ [source.quote])) = source.specifier := by
    apply trimWhile_append source.nonempty (by simpa using quote) (by simpa using quote)
    · exact fun c first => inside c (List.mem_of_head? first)
    · exact fun c last => inside c (List.mem_of_getLast? last)
  rw [unquote, String.toList_ofList, trimmed]
  exact congrArg String.ofList unquoted

theorem nodes_source (field : Option String) (source : Source) (line : Nat) : ∃ children last,
    (source.markup field).nodes line = [⟨"string", true, field, .ofList source.literal, line, last, children⟩] := by
  have text := source.chars_markup field
  rw [Source.markup, chars_node] at text
  rw [Source.markup, nodes_node, text]
  exact ⟨_, _, rfl⟩

theorem someTextAt?_source {n : Node} {source : Source} (text : n.textAt? "source" = some (.ofList source.literal)) :
    n.someTextAt? "source" = some (.ofList source.literal) := by
  have nonempty : source.literal ≠ [] := List.cons_ne_nil _ _
  simp [Node.someTextAt?, text, Option.filter, nonempty]

theorem ofEcmascript_import {n : Node} (source : Source) (type : n.type = "import_statement")
    (text : n.textAt? "source" = some (.ofList source.literal)) :
    ofEcmascript n = [⟨.ofList source.specifier, statementSymbols n⟩] := by
  rw [ofEcmascript, if_pos (by simp [type]), someTextAt?_source text, Option.map_some, unquote_literal]
  rfl

theorem ofEcmascript_export {n : Node} (source : Source) (type : n.type = "export_statement")
    (text : n.textAt? "source" = some (.ofList source.literal)) :
    ofEcmascript n = [⟨.ofList source.specifier, []⟩] := by
  rw [ofEcmascript, if_neg (by simp [type]), if_pos (by simp [type]), someTextAt?_source text, Option.map_some,
    unquote_literal]
  rfl

def listedName (n : Node) : List String :=
  if n.type == "import_specifier" then (n.someTextAt? "name").toList else []

theorem clausePartSymbols_named (n : Node) (list : n.type = "named_imports") :
    clausePartSymbols n = n.children.flatMap listedName := by
  rw [clausePartSymbols, if_neg (by simp [list]), if_pos (by simp [list]), Node.childrenOfType,
    filterMap_filter_eq_flatMap]
  exact List.flatMap_congr fun c _ => by simp [listedName]

theorem flatMap_nodes_item (line : Nat) (i : Item) :
    (nodesOf line (itemMarkup "import_specifier" i)).flatMap listedName = [i.name.text] := by
  simp [itemMarkup, leaf, listedName, Node.someTextAt?, Node.textAt?, Node.child?, Word.text, i.name.nonempty]

theorem flatMap_nodes_group (line : Nat) (g : Group) : (g.markup.nodes line).flatMap clausePartSymbols = g.symbols := by
  cases g with
  | names list =>
    have names (line : Nat) : (nodesOf line (listMarkup (itemMarkup "import_specifier") list)).flatMap listedName =
        list.names := by
      rw [flatMap_nodesOf_listMarkup (by simp [token, listedName]) flatMap_nodes_item]
      exact List.map_eq_flatMap.symm
    simp [Group.markup, bracedMarkup, clausePartSymbols_named, nodesOf_append, names, token, listedName, Group.symbols]
  | all name => simp [Group.markup, clausePartSymbols, Node.childrenOfType, token, leaf, Group.symbols, Word.text]

theorem nodes_clause (line : Nat) (c : Clause) : ∃ text last children,
    c.markup.nodes line = [⟨"import_clause", true, none, text, line, last, children⟩] ∧
      children.flatMap clausePartSymbols = c.symbols := by
  cases c with
  | default name =>
    refine ⟨_, _, _, nodes_node .., ?_⟩
    simp [clausePartSymbols, leaf, Clause.symbols, Word.text]
  | group first g =>
    refine ⟨_, _, _, nodes_node .., ?_⟩
    cases first with
    | none => simp [frontMarkup, flatMap_nodes_group, Clause.symbols]
    | some name => simp [frontMarkup, flatMap_nodes_group, Clause.symbols, leaf, token, clausePartSymbols, Word.text]

theorem nodes_call (line : Nat) (name : Identifier) (source : Source) :
    ((callMarkup name source).nodes line).flatMap ofEcmascript = [⟨.ofList source.specifier, [name.text]⟩] := by
  obtain ⟨children, last, nodes⟩ := nodes_source none source (line + name.chars.count '\n')
  simp [callMarkup, token, leaf, ofEcmascript, ofDeclarator, required?, Node.childrenOfType,
    Node.namedChildren, Node.someTextAt?, Node.textAt?, Node.child?, nodes, unquote_literal, source.nonempty,
    name.nonempty, Word.text]

namespace Statement

def parsed (s : Statement) : Import := ⟨s.specifier, s.symbols ++ s.bound⟩

theorem flatMap_nodes (line : Nat) (s : Statement) : (s.markup.nodes line).flatMap ofEcmascript = [s.parsed] := by
  cases s with
  | imports clause source =>
    obtain ⟨text, clauseLast, parts, clauseNodes, symbols⟩ := nodes_clause line clause
    obtain ⟨children, last, nodes⟩ := nodes_source (some "source") source (line + clause.markup.chars.count '\n')
    rw [markup, nodes_node, List.flatMap_singleton, ofEcmascript_import source rfl]
    · simp [statementSymbols, token, clauseNodes, nodes, symbols, parsed, specifier, Statement.symbols, bound,
        Statement.source]
    · simp [Node.textAt?, Node.child?, token, clauseNodes, nodes]
  | runs source =>
    obtain ⟨children, last, nodes⟩ := nodes_source (some "source") source line
    rw [markup, nodes_node, List.flatMap_singleton, ofEcmascript_import source rfl]
    · simp [statementSymbols, token, nodes, parsed, specifier, symbols, bound, Statement.source]
    · simp [Node.textAt?, Node.child?, token, nodes]
  | exports list source =>
    let clause := bracedMarkup "export_clause" "export_specifier" list
    obtain ⟨children, last, nodes⟩ := nodes_source (some "source") source (line + clause.chars.count '\n')
    have clauseNodes : clause.nodes line = _ := nodes_node ..
    rw [markup, nodes_node, List.flatMap_singleton, ofEcmascript_export source rfl]
    · rfl
    · simp [Node.textAt?, Node.child?, token, clauseNodes, clause, nodes]
  | exportsAll source =>
    obtain ⟨children, last, nodes⟩ := nodes_source (some "source") source line
    rw [markup, nodes_node, List.flatMap_singleton, ofEcmascript_export source rfl]
    · rfl
    · simp [Node.textAt?, Node.child?, token, nodes]
  | requires name source => exact nodes_call line name source

def text (ended : Bool) (statements : List Statement) : String := .ofList (written chars ended statements)

def tree (ended : Bool) (statements : List Statement) : Node := treeOf markup "program" ended statements

theorem ofRoot_tree (ended : Bool) (statements : List Statement) :
    ofRoot "ecmascript" (tree ended statements) = statements.map parsed := by
  have read := flatMap_children_treeOf flatMap_nodes "program" ended statements
  rw [ofRoot, if_pos (beq_self_eq_true _), tree, read]
  exact List.map_eq_flatMap.symm

/-- For any statements, each on lines of its own, scanning the text and reading its tree give each statement once and
in its place, with its file. Both give the names that it imports; only a scan also gives the names that an export passes
on, and only the tree the name that is bound to a call. -/
theorem text_and_tree_agree (path : String) (ended : Bool) (statements : List Statement) :
    (tree ended statements).text = text ended statements ∧
    ofText (Resolution.familyOf "ecmascript" path) (text ended statements) =
      statements.map (fun s => ⟨s.specifier, s.symbols ++ s.passedOn⟩) ∧
    ofRoot "ecmascript" (tree ended statements) =
      statements.map (fun s => ⟨s.specifier, s.symbols ++ s.bound⟩) := by
  refine ⟨?_, ?_, ?_⟩
  · exact text_treeOf chars_markup "program" ended statements
  · exact ofText_written ended statements
  · exact ofRoot_tree ended statements

example : text true [.exportsAll ⟨'"', rfl, ['a'], by decide, by simp [isMark]⟩] = "export * from \"a\";\n" := by
  decide

end Statement
end ChangeLens.Import.Ecmascript
