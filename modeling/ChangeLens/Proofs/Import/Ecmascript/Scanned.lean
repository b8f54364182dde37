import ChangeLens.Proofs.Import.Ecmascript.Clause
import ChangeLens.Proofs.Import.Ecmascript.Patterns

/-! What a scan finds in a text of statements. To each statement fits one pattern at one place, whatever stands in its
names and its quotes, so the finds in the order of their places are the statements in their order. -/
namespace ChangeLens.Import.Ecmascript

open Text

variable {before : Option Char} (source : Source) (rest : List Char)

theorem quotedSpecifier?_literal :
    quotedSpecifier? (source.literal ++ rest) = some (source.specifier, rest) := by
  have inner : ∀ c ∈ source.specifier, (c != '\'' && c != '"' && c != '\n') = true := by
    intro c member
    obtain ⟨notMark, -, oneLine⟩ := source.inside c member
    simpa [isMark, oneLine] using notMark
  have mark := isMark_iff.mp source.isMark
  have text : source.literal ++ rest = source.quote :: (source.specifier ++ source.quote :: rest) := by
    simp [Source.literal]
  rw [text]
  exact quotedSpecifier?_quoted mark source.nonempty inner rest

theorem dropWhile_blank_literal : (source.literal ++ rest).dropWhile isBlank = source.literal ++ rest := by
  apply List.dropWhile_cons_of_neg
  rcases isMark_iff.mp source.isMark with same | same <;> rw [same] <;> decide

theorem fromSpecifier?_from :
    fromSpecifier? before (" from ".toList ++ (source.literal ++ rest)) = some (source.specifier, rest) := by
  have word : after? "from".toList ((" from ".toList ++ (source.literal ++ rest)).dropWhile isBlank) =
      some (' ' :: (source.literal ++ rest)) := rfl
  have blank : (' ' :: (source.literal ++ rest)).dropWhile isBlank = source.literal ++ rest :=
    dropWhile_blank_literal source rest
  have separated : ((" from ".toList ++ (source.literal ++ rest)).head?.any isBlank || atWordStart before) = true := rfl
  unfold fromSpecifier?
  dsimp only
  rw [if_pos separated, word, Option.bind_some, blank, quotedSpecifier?_literal]

theorem unquoted_of_clear {cs : List Char} (clear : ∀ c, Closes c → c ∉ cs) : ∀ c ∈ cs, isMark c = false := by
  intro c member
  rw [← Bool.not_eq_true, isMark_iff]
  intro mark
  exact clear c (mark.imp_right .inl) member

/-- Within a clause `from` has not come yet: with any more solid characters before it, it is not the word itself. -/
theorem fromSpecifier?_within {cs : List Char} (clear : ∀ c, Closes c → c ∉ cs) (nonempty : cs ≠ [])
    (last : ∀ c ∈ cs.getLast?, isBlank c = false) :
    fromSpecifier? before (cs ++ (" from ".toList ++ (source.literal ++ rest))) = none := by
  rw [Option.eq_none_iff_forall_ne_some]
  intro found fits
  obtain ⟨lead, opens, word⟩ := fromSpecifier?_opens fits
  have unquoted : ∀ c ∈ cs ++ " from ".toList, isMark c = false :=
    List.forall_mem_append.mpr ⟨unquoted_of_clear clear, by simp [isMark]⟩
  rw [← List.append_assoc] at opens
  obtain ⟨rfl, -⟩ := opens.eq unquoted source.isMark
  -- All that is solid before the quotes would be `from`, so nothing is left for `cs`.
  have empty : solid cs = [] := by
    rw [solid_append] at word
    have word : solid cs ++ "from".toList = [] ++ "from".toList := word
    exact List.append_cancel_right word
  have blank := blank_of_solid empty _ (List.getLast_mem nonempty)
  rw [last _ (List.getLast?_eq_some_getLast nonempty)] at blank
  contradiction

theorem clauseThenFrom?_clause {cs : List Char} (clear : ∀ c, Closes c → c ∉ cs)
    (last : ∀ c ∈ cs.getLast?, isBlank c = false) :
    clauseThenFrom? before (cs ++ (" from ".toList ++ (source.literal ++ rest))) =
      some (cs, source.specifier, rest) := by
  induction cs generalizing before with
  | nil => exact clauseThenFrom?_here (fromSpecifier?_from source rest)
  | cons c cs ih =>
    have fails : fromSpecifier? before (c :: (cs ++ (" from ".toList ++ (source.literal ++ rest)))) = none :=
      fromSpecifier?_within source rest clear (List.cons_ne_nil c cs) last
    have inside : ¬(c = '\'' ∨ c = '"' ∨ c = ';') := fun closes => clear c closes (.head cs)
    have lastBehind : ∀ d ∈ cs.getLast?, isBlank d = false := by
      intro d member
      apply last
      rw [List.getLast?_cons, Option.mem_def.mp member]
      rfl
    rw [List.cons_append, clauseThenFrom?_later fails, if_neg inside,
      ih (fun d closes member => clear d closes (.tail c member)) lastBehind]
    rfl

theorem clauseStart?_clause {cs : List Char} (clause : IsClause cs) :
    clauseStart? (' ' :: (cs ++ rest)) = some (cs ++ rest) := by
  obtain ⟨c, first, solid, noCall⟩ := clause.first
  obtain ⟨cs, rfl⟩ := List.head?_eq_some_iff.mp first
  have blanks : (' ' :: (c :: cs ++ rest)).takeWhile isBlank = [' '] := by
    simp [solid, show isBlank ' ' = true from rfl]
  have others : (' ' :: (c :: cs ++ rest)).dropWhile isBlank = c :: cs ++ rest := by
    simp [solid, show isBlank ' ' = true from rfl]
  unfold clauseStart?
  simp only [blanks, others]
  simp [noCall]

theorem atWordStart_of_atLineStart (start : atLineStart before = true) : atWordStart before = true := by
  cases before with
  | none => rfl
  | some c =>
    obtain rfl : c = '\n' := by simpa [atLineStart] using start
    rfl

theorem fromStatement_named {keyword cs : List Char} (word : keyword = importing ∨ keyword = exporting)
    (clause : IsClause cs) (start : atLineStart before = true) :
    fromStatement before (named keyword cs ++ (source.literal ++ rest)) =
      some (⟨.ofList source.specifier, clauseSymbols (.ofList cs)⟩, rest) := by
  have text : named keyword cs ++ (source.literal ++ rest) =
      keyword ++ (' ' :: (cs ++ (" from ".toList ++ (source.literal ++ rest)))) := by
    simp [named]
  have begins (later : List Char) : afterAny? ["import", "export"] (keyword ++ later) = some later := by
    rcases word with rfl | rfl <;> simp [afterAny?, after?, importing, exporting]
  rw [text, fromStatement, if_pos (atWordStart_of_atLineStart start), begins, Option.bind_some,
    clauseStart?_clause _ clause, Option.bind_some, clauseThenFrom?_clause source rest clause.clear clause.last]
  rfl

theorem bareStatement_import (start : atLineStart before = true) :
    bareStatement before ((importing ++ [' ']) ++ (source.literal ++ rest)) =
      some (⟨.ofList source.specifier, []⟩, rest) := by
  have word : after? "import".toList (((importing ++ [' ']) ++ (source.literal ++ rest)).dropWhile isIndent) =
      some (' ' :: (source.literal ++ rest)) := rfl
  have blank : (' ' :: (source.literal ++ rest)).dropWhile isBlank = source.literal ++ rest :=
    dropWhile_blank_literal source rest
  rw [bareStatement, if_pos start, word, Option.bind_some, blank, quotedSpecifier?_literal]
  rfl

theorem loadCall_require :
    loadCall (some ' ') (calling ++ (source.literal ++ (')' :: rest))) =
      some (⟨.ofList source.specifier, []⟩, rest) := by
  have word : afterAny? ["require", "import"] (calling ++ (source.literal ++ (')' :: rest))) =
      some ('(' :: (source.literal ++ (')' :: rest))) := rfl
  have bracket : after? ['('] (('(' :: (source.literal ++ (')' :: rest))).dropWhile isBlank) =
      some (source.literal ++ (')' :: rest)) := rfl
  have closing : after? [')'] ((')' :: rest).dropWhile isBlank) = some rest := rfl
  have start : atWordStart (some ' ') = true := rfl
  simp only [loadCall, start, guard_true, pure_bind, word, Option.bind_eq_bind, Option.bind_some, bracket,
    dropWhile_blank_literal, quotedSpecifier?_literal, closing]
  rfl

theorem unquoted_calling : ∀ c ∈ calling, isMark c = false := by simp [calling, isMark]

/-- No other place of such a statement begins a call: of what stands before the word, blanks apart, nothing may be left,
and a blank begins no call. -/
theorem loadCall_within {cs : List Char} (unquoted : ∀ c ∈ cs, isMark c = false) (nonempty : cs ≠ []) :
    loadCall before (cs ++ (calling ++ (source.literal ++ rest))) = none := by
  rw [Option.eq_none_iff_forall_ne_some]
  intro found fits
  obtain ⟨lead, opens, word, first⟩ := loadCall_opens fits
  have clear : ∀ c ∈ cs ++ calling, isMark c = false := List.forall_mem_append.mpr ⟨unquoted, unquoted_calling⟩
  rw [← List.append_assoc] at opens
  obtain ⟨rfl, -⟩ := opens.eq clear source.isMark
  have empty : solid cs = [] := by
    rw [solid_append] at word
    rcases word with word | word
    · exact List.append_cancel_right (word.trans (List.nil_append _).symm : solid cs ++ solid calling = [] ++ calling)
    · have := congrArg List.length word
      have longer : (solid calling).length = 8 := by decide
      have shorter : "import(".toList.length = 7 := by decide
      rw [List.length_append] at this
      omega
  obtain ⟨c, more, rfl⟩ := List.exists_cons_of_ne_nil nonempty
  have blank := blank_of_solid empty c (.head more)
  rw [first c rfl] at blank
  contradiction

inductive Pattern where
  | clause
  | bare
  | call
  deriving DecidableEq

namespace Pattern

def scanner : Pattern → Scanner Import
  | clause => fromStatement
  | bare => bareStatement
  | call => loadCall

def last : Pattern → Char
  | clause => 'm'
  | bare => 't'
  | call => '('

theorem leadsBy (p : Pattern) : LeadsBy p.last p.scanner :=
  match p with
  | clause => fromStatement_leadsBy
  | bare => bareStatement_leadsBy
  | call => loadCall_leadsBy

end Pattern

namespace Statement

def pattern : Statement → Pattern
  | imports .. | exports .. | exportsAll .. => .clause
  | runs _ => .bare
  | requires .. => .call

def offset : Statement → Nat
  | requires name _ => (binding name).length
  | _ => 0

def scanned (s : Statement) : Import := ⟨s.specifier, s.symbols ++ s.passedOn⟩

theorem unquoted_named {keyword cs : List Char} (word : keyword = importing ∨ keyword = exporting)
    (clause : IsClause cs) : ∀ c ∈ named keyword cs, isMark c = false := by
  have plain : ∀ c ∈ keyword ++ [' '], isMark c = false := by
    rcases word with rfl | rfl <;> simp [importing, exporting, isMark]
  have text : named keyword cs = (keyword ++ [' ']) ++ (cs ++ " from ".toList) := by simp [named]
  rw [text]
  have behind : ∀ c ∈ cs ++ " from ".toList, isMark c = false :=
    List.forall_mem_append.mpr ⟨unquoted_of_clear clause.clear, by simp [isMark]⟩
  exact List.forall_mem_append.mpr ⟨plain, behind⟩

theorem unquoted_binding (name : Identifier) : ∀ c ∈ binding name, isMark c = false := by
  have word := unquoted_of_clear (isClause_word name.toWord).clear
  exact List.forall_mem_append.mpr ⟨by simp [isMark], List.forall_mem_append.mpr ⟨word, by simp [isMark]⟩⟩

theorem unquoted_lead (s : Statement) : ∀ c ∈ s.lead, isMark c = false := by
  cases s with
  | imports clause source => exact unquoted_named (.inl rfl) clause.isClause
  | runs source => simp [lead, importing, isMark]
  | exports list source => exact unquoted_named (.inr rfl) (isClause_braced list)
  | exportsAll source => exact unquoted_named (.inr rfl) isClause_star
  | requires name source => exact List.forall_mem_append.mpr ⟨unquoted_binding name, unquoted_calling⟩

theorem solid_lead (s : Statement) : (solid s.lead).getLast? = some s.pattern.last := by
  have ends (keyword cs : List Char) : (solid (named keyword cs)).getLast? = some 'm' := by
    have text : named keyword cs = (keyword ++ (' ' :: cs)) ++ " from ".toList := by simp [named]
    have word : (solid " from ".toList).getLast? = some 'm' := by decide
    rw [text, solid_append, List.getLast?_append, word]
    rfl
  cases s with
  | imports clause source => exact ends ..
  | runs source => exact (by decide : (solid (importing ++ [' '])).getLast? = some 't')
  | exports list source => exact ends ..
  | exportsAll source => exact ends ..
  | requires name source =>
    have word : (solid calling).getLast? = some '(' := by decide
    rw [lead, solid_append, List.getLast?_append, word]
    rfl

/-- A pattern that takes a line from its first character to its closing quote. -/
theorem finds_whole {s : Scanner Import} {last : Char} {lead : List Char} {found : Import} (leads : LeadsBy last s)
    (source : Source) (takes : ∀ before rest, atLineStart before = true →
      s before (lead ++ (source.literal ++ rest)) = some (found, rest)) :
    Finds s (lead ++ (source.literal ++ [';'])) [(0, found)] := by
  have nonempty : lead ++ source.literal ≠ [] := List.append_ne_nil_of_right_ne_nil _ (List.cons_ne_nil _ _)
  rw [← List.append_assoc]
  apply finds_first nonempty
  · intro before tail start _
    rw [List.append_assoc]
    exact takes before _ start
  · exact fun _ _ _ => leads.silent_ending (by simp)

theorem finds_call (name : Identifier) (source : Source) :
    Finds loadCall ((binding name ++ calling) ++ (source.literal ++ [')', ';']))
      [((binding name).length, ⟨.ofList source.specifier, []⟩)] := by
  have text : (binding name ++ calling) ++ (source.literal ++ [')', ';']) =
      binding name ++ ((calling ++ (source.literal ++ [')'])) ++ [';']) := by simp
  have last (before : Option Char) : behind before (binding name) = some ' ' := by
    have front : binding name = (['c', 'o', 'n', 's', 't', ' '] ++ name.chars) ++ " = ".toList := by simp [binding]
    rw [behind, front, List.getLast?_append]
    rfl
  rw [text]
  apply finds_single
  · exact List.cons_ne_nil _ _
  · intro before tail _ _
    apply silent_of_suffix
    intro before rest nonempty suffix
    simp only [List.append_assoc]
    exact loadCall_within source _ (fun c member => unquoted_binding name c (suffix.subset member)) nonempty
  · intro before tail _ _
    rw [last, List.append_assoc, List.append_assoc]
    exact loadCall_require source _
  · exact fun _ _ _ => loadCall_leadsBy.silent_ending (by simp)

theorem finds_own (s : Statement) : Finds s.pattern.scanner s.chars [(s.offset, s.scanned)] := by
  have named {keyword cs : List Char} {symbols : List String} (source : Source)
      (word : keyword = importing ∨ keyword = exporting) (clause : IsClause cs)
      (names : clauseSymbols (.ofList cs) = symbols) :
      Finds fromStatement (named keyword cs ++ (source.literal ++ [';']))
        [(0, ⟨.ofList source.specifier, symbols⟩)] := by
    apply finds_whole fromStatement_leadsBy source
    intro before rest start
    rw [fromStatement_named source rest word clause start, names]
  cases s with
  | imports clause source =>
    apply named source (.inl rfl) clause.isClause
    rw [clauseSymbols_chars]
    exact (List.append_nil _).symm
  | exports list source => exact named source (.inr rfl) (isClause_braced list) (clauseSymbols_braced list)
  | exportsAll source =>
    have nothing : clauseSymbols (.ofList ['*']) = [] := by decide
    exact named source (.inr rfl) isClause_star nothing
  | runs source =>
    apply finds_whole bareStatement_leadsBy source
    exact fun _ rest start => bareStatement_import source rest start
  | requires name source => exact finds_call name source

/-- What a pattern finds in a statement: the statement if it is its own, and nothing else. -/
def foundBy (p : Pattern) (s : Statement) : List (Nat × Import) :=
  if p = s.pattern then [(s.offset, s.scanned)] else []

theorem finds_foundBy (p : Pattern) (s : Statement) : Finds p.scanner s.chars (foundBy p s) := by
  by_cases own : p = s.pattern
  · subst own
    rw [foundBy, if_pos rfl]
    exact s.finds_own
  · rw [foundBy, if_neg own]
    have other : (solid s.lead).getLast? ≠ some p.last := by
      rw [solid_lead]
      revert own
      generalize s.pattern = q
      cases p <;> cases q <;> decide
    have ends : ∀ c ∈ s.ending, c = ';' ∨ c = ')' := by cases s <;> simp [ending]
    exact p.leadsBy.finds_nil s.source s.unquoted_lead other ends

theorem offset_le (s : Statement) : s.offset ≤ s.chars.length := by
  cases s with
  | requires name source =>
    simp only [offset, chars, lead, List.length_append]
    omega
  | _ => exact Nat.zero_le _

/-- The one pattern of a statement finds it, the others do not. -/
theorem foundBy_all (s : Statement) :
    [Pattern.clause, .bare, .call].flatMap (foundBy · s) = [(s.offset, s.scanned)] := by
  unfold foundBy
  generalize s.pattern = p
  cases p <;> rfl

/-- A scan finds the statements of a text in their order. -/
theorem ofText_written (ended : Bool) (statements : List Statement) :
    ofText "ecmascript" (.ofList (written chars ended statements)) = statements.map scanned := by
  have merged := inOrder_written (fun p _ _ => p.leadsBy.begins _ _ _ (.inr (.inr rfl))) finds_foundBy foundBy_all
    offset_le ended statements
  simpa [ofText, Pattern.scanner] using merged

end Statement
end ChangeLens.Import.Ecmascript
