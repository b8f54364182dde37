import ChangeLens.Proofs.Import.Python.Statement
import Mathlib.Data.Option.Basic

/-! What a scan finds in a text of statements. Only within brackets does a statement have more than one line; there the
pattern for whole modules could fit at a line feed, but no name is `import`. -/
namespace ChangeLens.Import.Python

open Text

variable {before : Option Char} {rest : List Char}

theorem fromImport_bound (before : Option Char) (cs : List Char) (inside : atLineStart before = false) :
    fromImport before cs = none := by
  rw [fromImport, inside]
  rfl

theorem moduleImport_bound (before : Option Char) (cs : List Char) (inside : atLineStart before = false) :
    moduleImport before cs = none := by
  rw [moduleImport, inside]
  rfl

/-- At the beginning of a line the word `import` comes next, with a blank behind it. -/
def Begins (cs : List Char) : Prop :=
  ∃ rest, cs.dropWhile isIndent = "import".toList ++ rest ∧ rest.head?.any isIndent = true

theorem moduleImport_begins {cs : List Char} {found : List Import × List Char}
    (fits : moduleImport before cs = some found) : Begins cs := by
  simp only [moduleImport, Option.bind_eq_bind, Option.bind_eq_some_iff] at fits
  obtain ⟨-, -, rest, word, names, blanks, -⟩ := fits
  refine ⟨rest, after?_eq_some_iff.mp word, ?_⟩
  by_contra solid
  rw [skipIndent?, if_neg solid] at blanks
  contradiction

theorem moduleImport_eq_none {cs : List Char} (misfit : ¬Begins cs) : moduleImport before cs = none := by
  rw [Option.eq_none_iff_forall_ne_some]
  intro found fits
  exact misfit (moduleImport_begins fits)

theorem not_begins_cons {c : Char} (solid : isIndent c = false) (other : c ≠ 'i') (cs : List Char) :
    ¬Begins (c :: cs) := by
  rintro ⟨rest, same, -⟩
  rw [List.dropWhile_cons_of_neg (by simp [solid])] at same
  exact other (List.cons.inj same).1

theorem isIndent_iff {c : Char} : isIndent c = true ↔ c = ' ' ∨ c = '\t' := by
  simp only [isIndent, Bool.or_eq_true, beq_iff_eq]

theorem notPlain_of_isIndent {c : Char} (indent : isIndent c = true) : isPlain c = false := by
  rcases isIndent_iff.mp indent with rfl | rfl <;> rfl

theorem isIndent_of_isPlain {c : Char} (plain : isPlain c = true) : isIndent c = false := by
  rw [← Bool.not_eq_true]
  intro indent
  rw [notPlain_of_isIndent indent] at plain
  contradiction

/-- No name but `import` is taken for it where a sign follows that no name has. -/
theorem not_begins_of_solid {p : Char → Bool} {cs : List Char} (nonempty : cs ≠ []) (other : cs ≠ "import".toList)
    (solid : ∀ c ∈ cs, p c = true) (edge : ∀ c ∈ rest.head?, p c = false)
    (word : ∀ c ∈ "import".toList, p c = true) (indents : ∀ c, isIndent c = true → p c = false) :
    ¬Begins (cs ++ rest) := by
  rintro ⟨more, same, indent⟩
  have unindented : (cs ++ rest).dropWhile isIndent = cs ++ rest := by
    obtain ⟨c, tail, rfl⟩ := List.exists_cons_of_ne_nil nonempty
    apply List.dropWhile_cons_of_neg
    intro indent
    have := indents c indent
    simp [solid c (.head tail)] at this
  have blank : ∀ c ∈ more.head?, p c = false := by
    intro c first
    rw [Option.mem_def.mp first] at indent
    exact indents c indent
  rw [unindented] at same
  -- Read up to the first sign that no name has, both sides of `same` end: one is the name, the other `import`.
  apply other
  rw [← takeWhile_append_of_stop solid edge, same, takeWhile_append_of_stop word blank]

theorem not_begins_word (w : Word) (edge : ∀ c ∈ rest.head?, isPlain c = false) : ¬Begins (w.chars ++ rest) :=
  not_begins_of_solid w.nonempty w.notImport w.plain edge (List.all_eq_true.mp rfl) fun _ => notPlain_of_isIndent

theorem not_begins_blank {cs : List Char} (blank : ∀ c ∈ cs, c = ' ' ∨ c = '\t' ∨ c = '\n') (misfit : ¬Begins rest) :
    ¬Begins (cs ++ rest) := by
  induction cs with
  | nil => exact misfit
  | cons c cs ih =>
    obtain ⟨here, later⟩ := List.forall_mem_cons.mp blank
    rcases here with rfl | rfl | rfl
    · exact ih later
    · exact ih later
    · exact not_begins_cons rfl (by decide) _

/-- A piece of text in which no module is imported, whatever stands before it. -/
def Passed (cs rest : List Char) : Prop := ∀ before, Silent moduleImport before cs rest

theorem Passed.append {cs more : List Char} (first : Passed cs (more ++ rest)) (second : Passed more rest) :
    Passed (cs ++ more) rest := fun before => (first before).append (second _)

theorem passed_sign {c : Char} (solid : isIndent c = false) (other : c ≠ 'i') (rest : List Char) : Passed [c] rest :=
  fun _ => ⟨moduleImport_eq_none (not_begins_cons solid other rest), trivial⟩

theorem passed_gap (g : Gap) (misfit : ¬Begins rest) : Passed g.chars rest := by
  intro before
  apply silent_of_suffix
  intro before tail _ suffix
  apply moduleImport_eq_none
  exact not_begins_blank (fun c member => g.blank c (suffix.subset member)) misfit

theorem passed_line {cs : List Char} (misfit : ¬Begins (cs ++ rest)) (oneLine : '\n' ∉ cs) : Passed cs rest := by
  intro before
  cases cs with
  | nil => trivial
  | cons c cs =>
    obtain ⟨here, later⟩ := not_or.mp (mt List.mem_cons.mpr oneLine)
    exact ⟨moduleImport_eq_none misfit, silent_of_notMem_newline moduleImport_bound (Ne.symm here) later⟩

theorem passed_word (w : Word) (edge : ∀ c ∈ rest.head?, isPlain c = false) : Passed w.chars rest :=
  passed_line (not_begins_word w edge) (w.notMem rfl)

theorem passed_gap_word (g : Gap) (w : Word) (edge : ∀ c ∈ rest.head?, isPlain c = false) :
    Passed (g.chars ++ w.chars) rest :=
  (passed_gap g (not_begins_word w edge)).append (passed_word w edge)

theorem notPlain_gap (g : Gap) (edge : ∀ c ∈ rest.head?, isPlain c = false) :
    ∀ c ∈ (g.chars ++ rest).head?, isPlain c = false := by
  cases equal : g.chars with
  | nil => exact edge
  | cons d ds =>
    intro c first
    obtain rfl := Option.some.inj first
    rcases g.blank d (equal ▸ .head ds) with rfl | rfl | rfl <;> rfl

theorem notPlain_of_gap (g : Gap) (nonempty : g.chars ≠ []) (rest : List Char) :
    ∀ c ∈ (g.chars ++ rest).head?, isPlain c = false := by
  obtain ⟨d, ds, equal⟩ := List.exists_cons_of_ne_nil nonempty
  have blank := notPlain_gap g (fun c (none : c ∈ [].head?) => by contradiction)
  rw [equal] at blank ⊢
  exact blank

/-- The end of an item in brackets. -/
def Closed (rest : List Char) : Prop := ∃ more, rest = ',' :: more ∨ rest = ')' :: more

theorem Closed.notPlain (closed : Closed rest) : ∀ c ∈ rest.head?, isPlain c = false := by
  obtain ⟨more, rfl | rfl⟩ := closed
  all_goals
    intro c first
    obtain rfl := Option.some.inj first
    rfl

theorem Closed.not_begins (closed : Closed rest) : ¬Begins rest := by
  obtain ⟨more, rfl | rfl⟩ := closed
  · exact not_begins_cons rfl (by decide) more
  · exact not_begins_cons rfl (by decide) more

def asWord : Word := ⟨['a', 's'], by decide, List.all_eq_true.mp rfl, by decide⟩

theorem passed_item (i : Item) (closed : Closed rest) : Passed i.chars rest := by
  have after := notPlain_gap i.after closed.notPlain
  have last : Passed i.after.chars rest := passed_gap i.after closed.not_begins
  unfold Item.chars Item.core
  cases i.alias? with
  | none =>
    rw [Option.map_none, Option.getD_none, List.append_nil, ← List.append_assoc]
    exact (passed_gap_word i.before i.name after).append last
  | some a =>
    have text : i.before.chars ++ ((i.name.chars ++ a.chars) ++ i.after.chars) =
        (i.before.chars ++ i.name.chars) ++ ((a.before.chars ++ asWord.chars) ++
          ((a.after.chars ++ a.name.chars) ++ i.after.chars)) := by
      simp [Alias.chars, asWord]
    rw [Option.map_some, Option.getD_some, text]
    apply Passed.append
    · apply passed_gap_word
      simp only [List.append_assoc]
      exact notPlain_of_gap a.before a.before_nonempty _
    · apply Passed.append
      · apply passed_gap_word
        simp only [List.append_assoc]
        exact notPlain_of_gap a.after a.after_nonempty _
      · exact (passed_gap_word a.after a.name after).append last

theorem passed_parts {parts : List (List Char)}
    (each : ∀ part ∈ parts, ∀ rest, Closed rest → Passed part rest) (closed : Closed rest) :
    Passed ([','].intercalate parts) rest := by
  induction parts with
  | nil => exact fun _ => trivial
  | cons part parts ih =>
    obtain ⟨here, later⟩ := List.forall_mem_cons.mp each
    cases parts with
    | nil => simpa [List.intercalate] using here rest closed
    | cons next parts =>
      rw [List.intercalate_cons_cons, List.append_assoc]
      apply Passed.append
      · exact here _ ⟨_, .inl rfl⟩
      · exact (passed_sign rfl (by decide) _).append (ih later)

theorem passed_list (l : NameList) (closed : Closed rest) : Passed l.chars rest := by
  apply passed_parts _ closed
  intro part member rest closed
  rcases List.mem_append.mp member with member | member
  · obtain ⟨i, -, rfl⟩ := List.mem_map.mp member
    exact passed_item i closed
  · obtain ⟨g, -, rfl⟩ := List.mem_map.mp member
    exact passed_gap g closed.not_begins

theorem importedNames?_line {cs tail : List Char} (line : LineEnd tail) (oneLine : '\n' ∉ cs)
    (first : ∃ c ∈ cs.head?, isIndent c = false ∧ c ≠ '(') :
    importedNames? (' ' :: (cs ++ tail)) = some (cs, tail) := by
  obtain ⟨c, head, solid, noBracket⟩ := first
  obtain ⟨cs, rfl⟩ := List.head?_eq_some_iff.mp head
  have rest : (' ' :: (c :: cs ++ tail)).dropWhile isIndent = c :: (cs ++ tail) := by
    simp [solid, show isIndent ' ' = true from rfl]
  have inside : ∀ d ∈ c :: cs, (d != '\n') = true := by
    intro d member
    simp only [bne_iff_ne]
    rintro rfl
    exact oneLine member
  have names : (c :: (cs ++ tail)).takeWhile (· != '\n') = c :: cs := takeWhile_append_of_stop inside (line.stops rfl)
  have after : (c :: (cs ++ tail)).dropWhile (· != '\n') = tail := dropWhile_append_of_stop inside (line.stops rfl)
  unfold importedNames?
  simp only [rest, names, after]
  split
  · simp_all
  · rfl

theorem importedNames?_brackets {cs : List Char} (inside : ')' ∉ cs) (tail : List Char) :
    importedNames? (' ' :: (['('] ++ (cs ++ [')']) ++ tail)) = some (['('] ++ (cs ++ [')']), tail) := by
  have cut : cutFirst ')' ('(' :: cs ++ ')' :: tail) = ('(' :: cs, some tail) := by
    apply cutFirst_append
    simpa using inside
  have rest : (' ' :: (['('] ++ (cs ++ [')']) ++ tail)).dropWhile isIndent = '(' :: cs ++ ')' :: tail := by
    simp [isIndent]
  unfold importedNames?
  dsimp only
  rw [rest, cut]
  simp

theorem isIndent_of_inModule {c : Char} (inside : inModule c = true) : isIndent c = false := by
  rw [← Bool.not_eq_true]
  intro indent
  rcases isIndent_iff.mp indent with rfl | rfl <;> revert inside <;> decide

theorem skipIndent?_space {cs : List Char} (solid : ∀ c ∈ cs.head?, isIndent c = false) :
    skipIndent? (' ' :: cs) = some cs := by
  have dropped : (' ' :: cs).dropWhile isIndent = cs := by
    rw [List.dropWhile_cons_of_pos rfl]
    cases cs with
    | nil => rfl
    | cons c cs => exact List.dropWhile_cons_of_neg (by simp [solid c rfl])
  rw [skipIndent?, dropped]
  rfl

theorem namesIn_brackets (cs : List Char) : namesIn ('(' :: (cs ++ [')'])) = listNames cs := by
  have trimmed : trimChars ('(' :: (cs ++ [')'])) = '(' :: (cs ++ [')']) := by
    apply trimWhile_eq_self
    · intro c first
      obtain rfl := Option.some.inj first
      decide
    · intro c last
      rw [← List.cons_append, List.getLast?_append] at last
      obtain rfl := Option.some.inj last
      decide
  simp [namesIn, trimmed]

theorem fromImport_from {source names tail : List Char} (start : atLineStart before = true) (nonempty : source ≠ [])
    (inside : ∀ c ∈ source, inModule c = true)
    (taken : importedNames? (' ' :: (names ++ tail)) = some (names, tail)) :
    fromImport before ("from".toList ++ (' ' :: (source ++ (' ' :: ("import".toList ++ (' ' :: (names ++ tail))))))) =
      some ([⟨.ofList source, namesIn names⟩], tail) := by
  have word (cs : List Char) : after? "from".toList (("from".toList ++ (' ' :: cs)).dropWhile isIndent) =
      some (' ' :: cs) := rfl
  have toModule (cs : List Char) : skipIndent? (' ' :: (source ++ cs)) = some (source ++ cs) := by
    apply skipIndent?_space
    obtain ⟨c, rest, rfl⟩ := List.exists_cons_of_ne_nil nonempty
    intro d first
    obtain rfl := Option.some.inj first
    exact isIndent_of_inModule (inside c (.head rest))
  have inside : ∀ c ∈ source, (isWordChar c || c == '.') = true := inside
  have stops (cs : List Char) : ∀ c ∈ (' ' :: cs).head?, (isWordChar c || c == '.') = false := by
    intro c first
    obtain rfl := Option.some.inj first
    rfl
  have module (cs : List Char) : (source ++ ' ' :: cs).takeWhile (fun c => isWordChar c || c == '.') = source :=
    takeWhile_append_of_stop inside (stops cs)
  have behind (cs : List Char) : (source ++ ' ' :: cs).dropWhile (fun c => isWordChar c || c == '.') = ' ' :: cs :=
    dropWhile_append_of_stop inside (stops cs)
  have toImport : skipIndent? (' ' :: ("import".toList ++ (' ' :: (names ++ tail)))) =
      some ("import".toList ++ (' ' :: (names ++ tail))) := rfl
  have keyword : after? "import".toList ("import".toList ++ (' ' :: (names ++ tail))) = some (' ' :: (names ++ tail)) :=
    after?_eq_some_iff.mpr rfl
  have some : (!source.isEmpty) = true := by simp [nonempty]
  have blank : (' ' :: (names ++ tail)).head?.any isIndent = true := rfl
  simp only [fromImport, start, guard_true, word, Option.bind_eq_bind, Option.bind_some, Option.pure_def, toModule,
    module, behind, toImport, keyword, blank, taken, some]

theorem fromImport_taking (m : Module) {names tail : List Char} (start : atLineStart before = true)
    (taken : importedNames? (' ' :: (names ++ tail)) = some (names, tail)) :
    fromImport before (taking m ++ (names ++ tail)) = some ([⟨m.text, namesIn names⟩], tail) := by
  have text : taking m ++ (names ++ tail) =
      "from".toList ++ (' ' :: (m.chars ++ (' ' :: ("import".toList ++ (' ' :: (names ++ tail)))))) := by
    simp [taking]
  rw [text]
  exact fromImport_from start m.nonempty m.inside taken

theorem moduleImport_loading {cs tail : List Char} (start : atLineStart before = true) (line : LineEnd tail)
    (nonempty : cs ≠ []) (inside : ∀ c ∈ cs, (c != '\n' && c != '#' && c != ';') = true)
    (solid : ∀ c ∈ cs.head?, isIndent c = false) :
    moduleImport before (loading ++ (cs ++ tail)) =
      some ((listNames cs).map fun module => ⟨module, []⟩, tail) := by
  have word : after? "import".toList ((loading ++ (cs ++ tail)).dropWhile isIndent) = some (' ' :: (cs ++ tail)) := rfl
  obtain ⟨c, cs, rfl⟩ := List.exists_cons_of_ne_nil nonempty
  have toNames : skipIndent? (' ' :: (c :: cs ++ tail)) = some (c :: cs ++ tail) :=
    skipIndent?_space (by simpa using solid)
  have begins : (c :: cs ++ tail).head?.any (fun c => c != '\n' && c != '#' && c != ';') = true := inside c (.head cs)
  have names : (c :: cs ++ tail).takeWhile (fun c => c != '\n' && c != '#' && c != ';') = c :: cs :=
    takeWhile_append_of_stop inside (line.stops rfl)
  have rest : (c :: cs ++ tail).dropWhile (fun c => c != '\n' && c != '#' && c != ';') = tail :=
    dropWhile_append_of_stop inside (line.stops rfl)
  simp only [moduleImport, start, guard_true, word, Option.bind_eq_bind, Option.bind_some, Option.pure_def, toNames,
    begins, names, rest]

namespace Taken

theorem importedNames?_chars (t : Taken) {tail : List Char} (line : LineEnd tail) :
    importedNames? (' ' :: (t.chars ++ tail)) = some (t.chars, tail) := by
  cases t with
  | inLine first others =>
    obtain ⟨c, rest, text, plain⟩ := NameList.head_inLine first others
    apply importedNames?_line line (NameList.newline_notMem_inLine first others)
    refine ⟨c, by rw [text]; rfl, isIndent_of_isPlain plain, ?_⟩
    rintro rfl
    contradiction
  | inBrackets list => exact importedNames?_brackets (list.notMem_chars rfl (by decide) (by decide)) tail
  | all => exact importedNames?_line line (by decide) ⟨'*', rfl, by decide⟩

theorem namesIn_chars (t : Taken) : namesIn t.chars = t.symbols := by
  cases t with
  | inLine first others =>
    obtain ⟨c, rest, text, plain⟩ := NameList.head_inLine first others
    have noBracket : (NameList.inLine first others).chars.head? ≠ some '(' := by
      rw [text]
      intro same
      obtain rfl := Option.some.inj same
      contradiction
    simp only [namesIn, chars, NameList.trimChars_inLine, if_neg noBracket, NameList.listNames_chars]
    rfl
  | inBrackets list => exact (namesIn_brackets list.chars).trans list.listNames_chars
  | all => decide

theorem silent_chars (t : Taken) {tail : List Char} : Silent moduleImport (some ' ') t.chars tail := by
  cases t with
  | inLine first others =>
    exact silent_of_notMem_newline moduleImport_bound (by decide) (NameList.newline_notMem_inLine first others)
  | inBrackets list =>
    have names : Passed list.chars (')' :: tail) := passed_list list ⟨tail, .inr rfl⟩
    have closing : Passed [')'] tail := passed_sign rfl (by decide) tail
    exact (passed_sign rfl (by decide) _).append (names.append closing) _
  | all => exact silent_of_notMem_newline moduleImport_bound (by decide) (by decide)

end Taken

theorem newline_notMem_taking (m : Module) : '\n' ∉ taking m := by
  have apart : '\n' ∉ m.chars := by
    intro member
    have := m.inside _ member
    contradiction
  simp only [taking, List.mem_append, not_or]
  exact ⟨by decide, apart, by decide⟩

theorem behind_taking (m : Module) : behind before (taking m) = some ' ' := by
  have text : taking m = (['f', 'r', 'o', 'm', ' '] ++ m.chars) ++ " import ".toList := by simp [taking]
  rw [behind, text, List.getLast?_append]
  rfl

theorem silent_from {cs : List Char} (oneLine : '\n' ∉ cs) : Silent moduleImport before ('f' :: cs) rest :=
  ⟨moduleImport_eq_none (not_begins_cons rfl (by decide) _),
    silent_of_notMem_newline moduleImport_bound (by decide) oneLine⟩

theorem silent_taking (m : Module) : Silent moduleImport before (taking m) rest := by
  have front : taking m = 'f' :: (['r', 'o', 'm', ' '] ++ (m.chars ++ " import ".toList)) := rfl
  have oneLine := newline_notMem_taking m
  rw [front] at oneLine ⊢
  exact silent_from (not_or.mp (mt List.mem_cons.mpr oneLine)).2

inductive Pattern where
  | names
  | modules

def Pattern.scanner : Pattern → Scanner (List Import)
  | names => fromImport
  | modules => moduleImport

theorem Pattern.scanner_newline (p : Pattern) (before : Option Char) (rest : List Char) :
    p.scanner before ('\n' :: rest) = none := by
  cases p with
  | names => simp [scanner, fromImport, isIndent, after?]
  | modules => exact moduleImport_eq_none (not_begins_cons rfl (by decide) rest)

namespace Statement

def foundBy : Pattern → Statement → List (Nat × List Import)
  | .names, takes m taken => [(0, (takes m taken).imports)]
  | .modules, loads first others => [(0, (loads first others).imports)]
  | .names, loads .. | .modules, takes .. => []

theorem finds_takes (m : Module) (taken : Taken) :
    Finds fromImport (takes m taken).chars [(0, (takes m taken).imports)] := by
  apply finds_all
  · exact List.cons_ne_nil _ _
  · intro before tail start line
    rw [chars, List.append_assoc, fromImport_taking m start (taken.importedNames?_chars line), taken.namesIn_chars]
    rfl

theorem finds_loads (first : Listed) (others : List Listed) :
    Finds moduleImport (loads first others).chars [(0, (loads first others).imports)] := by
  obtain ⟨c, rest, text, plain⟩ := NameList.head_inLine first others
  have inside : ∀ c ∈ (NameList.inLine first others).chars, (c != '\n' && c != '#' && c != ';') = true := by
    intro c member
    simp only [Bool.and_eq_true, bne_iff_ne]
    refine ⟨⟨?_, ?_⟩, ?_⟩
    · rintro rfl
      exact NameList.newline_notMem_inLine first others member
    · rintro rfl
      exact (NameList.inLine first others).notMem_chars rfl (by decide) (by decide) member
    · rintro rfl
      exact (NameList.inLine first others).notMem_chars rfl (by decide) (by decide) member
  apply finds_all
  · exact List.cons_ne_nil _ _
  · intro before tail start line
    rw [chars, List.append_assoc, moduleImport_loading start line _ inside, NameList.listNames_chars]
    · rfl
    · rw [text]
      intro d head
      obtain rfl := Option.some.inj head
      exact isIndent_of_isPlain plain
    · rw [text]
      exact List.cons_ne_nil _ _

theorem finds_foundBy (p : Pattern) (s : Statement) : Finds p.scanner s.chars (foundBy p s) := by
  cases p with
  | names =>
    cases s with
    | takes m taken => exact finds_takes m taken
    | loads first others =>
      have oneLine : '\n' ∉ ['m', 'p', 'o', 'r', 't', ' '] ++ (NameList.inLine first others).chars := by
        rw [List.mem_append, not_or]
        exact ⟨by decide, NameList.newline_notMem_inLine first others⟩
      apply finds_nil
      intro before tail _ _
      have misfit (cs : List Char) : fromImport before ('i' :: cs) = none := by simp [fromImport, isIndent, after?]
      exact ⟨misfit _, silent_of_notMem_newline fromImport_bound (by decide) oneLine⟩
  | modules =>
    cases s with
    | takes m taken =>
      apply finds_nil
      intro before tail _ _
      apply (silent_taking m).append
      rw [behind_taking]
      exact taken.silent_chars
    | loads first others => exact finds_loads first others

theorem foundBy_all (s : Statement) : [Pattern.names, .modules].flatMap (foundBy · s) = [(0, s.imports)] := by
  cases s <;> rfl

/-- A scan finds the statements of a text in their order. -/
theorem ofText_written (ended : Bool) (statements : List Statement) :
    ofText "python" (.ofList (written chars ended statements)) = statements.flatMap imports := by
  have merged := inOrder_written Pattern.scanner_newline finds_foundBy foundBy_all (fun s => Nat.zero_le _) ended
    statements
  rw [List.flatMap_def]
  simpa [ofText, Pattern.scanner] using congrArg List.flatten merged

end Statement
end ChangeLens.Import.Python
