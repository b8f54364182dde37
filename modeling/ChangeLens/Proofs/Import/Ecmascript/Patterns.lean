import ChangeLens.Proofs.Import.Ecmascript.Statement
import Mathlib.Data.Option.Basic

/-! What the patterns for imports take of a text. Each of them leads to a file in quotes, with no quote before it. So
the text up to the next quotes tells which pattern may fit, and where the quotes close a file none of them does. -/
namespace ChangeLens.Import.Ecmascript

open Text

/-- The characters that are not blank. -/
def solid (cs : List Char) : List Char := cs.filter (!isBlank ·)

/-- The first quotes of a text are those around a file, and `lead` stands before them. -/
structure Opens (lead cs : List Char) : Prop where
  unquoted : ∀ c ∈ lead, isMark c = false
  quoted : ∃ rest, cs = lead ++ rest ∧ (quotedSpecifier? rest).isSome

@[simp] theorem solid_append (xs ys : List Char) : solid (xs ++ ys) = solid xs ++ solid ys := List.filter_append ..

theorem solid_blank {cs : List Char} (blank : ∀ c ∈ cs, isBlank c = true) : solid cs = [] := by
  apply List.filter_eq_nil_iff.mpr
  intro c member
  simp [blank c member]

theorem blank_of_solid {cs : List Char} (empty : solid cs = []) : ∀ c ∈ cs, isBlank c = true := by
  intro c member
  simpa using List.filter_eq_nil_iff.mp empty c member

theorem notMark_of_blank {c : Char} (blank : isBlank c = true) : isMark c = false := by
  by_contra mark
  simp only [isMark, Bool.not_eq_false, Bool.or_eq_true, beq_iff_eq] at mark
  rcases mark with rfl | rfl <;> contradiction

theorem notMark_of_indent {c : Char} (indent : isIndent c = true) : isMark c = false := by
  simp only [isIndent, Bool.or_eq_true, beq_iff_eq] at indent
  rcases indent with rfl | rfl <;> rfl

theorem isMark_iff {c : Char} : isMark c = true ↔ c = '\'' ∨ c = '"' := by simp [isMark]

theorem mark_of_quoted {cs : List Char} (found : (quotedSpecifier? cs).isSome) :
    ∃ q rest, cs = q :: rest ∧ isMark q = true := by
  cases cs with
  | nil => contradiction
  | cons q rest =>
    refine ⟨q, rest, rfl, ?_⟩
    by_contra notMark
    rw [quotedSpecifier?, if_neg (mt isMark_iff.mpr notMark)] at found
    contradiction

/-- There is one way only to read a text up to its first quotes. -/
theorem Opens.eq {lead front rest : List Char} {q : Char} (opens : Opens lead (front ++ q :: rest))
    (unquoted : ∀ c ∈ front, isMark c = false) (mark : isMark q = true) :
    lead = front ∧ (quotedSpecifier? (q :: rest)).isSome := by
  obtain ⟨clear, behind, same, found⟩ := opens
  obtain ⟨q', rest', rfl, mark'⟩ := mark_of_quoted found
  have upTo {xs ys : List Char} {d : Char} (none : ∀ c ∈ xs, isMark c = false) (mark : isMark d = true) :
      (xs ++ d :: ys).takeWhile (!isMark ·) = xs :=
    takeWhile_append_of_stop (by simpa using none) (by simpa using mark)
  have equal : front = lead := by rw [← upTo unquoted mark, same, upTo clear mark']
  subst equal
  exact ⟨rfl, List.append_cancel_left same ▸ found⟩

theorem Opens.append {front lead cs : List Char} (opens : Opens lead cs) (unquoted : ∀ c ∈ front, isMark c = false) :
    Opens (front ++ lead) (front ++ cs) := by
  obtain ⟨clear, rest, rfl, found⟩ := opens
  refine ⟨?_, rest, (List.append_assoc ..).symm, found⟩
  intro c member
  rcases List.mem_append.mp member with member | member
  · exact unquoted c member
  · exact clear c member

theorem opens_of_quoted {cs : List Char} (found : (quotedSpecifier? (cs.dropWhile isBlank)).isSome) :
    Opens (cs.takeWhile isBlank) cs := by
  refine ⟨?_, _, List.takeWhile_append_dropWhile.symm, found⟩
  intro c member
  exact notMark_of_blank (List.mem_takeWhile_imp member)

theorem solid_takeWhile (cs : List Char) : solid (cs.takeWhile isBlank) = [] :=
  solid_blank fun _ => List.mem_takeWhile_imp

variable {before : Option Char} {cs : List Char}

theorem fromSpecifier?_opens {found : List Char × List Char} (fits : fromSpecifier? before cs = some found) :
    ∃ lead, Opens lead cs ∧ solid lead = "from".toList := by
  unfold fromSpecifier? at fits
  dsimp only at fits
  split at fits
  · obtain ⟨rest, word, quoted⟩ := Option.bind_eq_some_iff.mp fits
    have text : cs = cs.takeWhile isBlank ++ ("from".toList ++ rest) := by
      rw [← after?_eq_some_iff.mp word, List.takeWhile_append_dropWhile]
    have opens := opens_of_quoted (Option.isSome_of_eq_some quoted)
    refine ⟨cs.takeWhile isBlank ++ ("from".toList ++ rest.takeWhile isBlank), ?_, ?_⟩
    · nth_rewrite 2 [text]
      apply Opens.append
      · exact opens.append (by simp [isMark])
      · exact fun c member => notMark_of_blank (List.mem_takeWhile_imp member)
    · rw [solid_append, solid_append, solid_takeWhile, solid_takeWhile]
      decide
  · contradiction

theorem clauseThenFrom?_here {found : List Char × List Char} (fits : fromSpecifier? before cs = some found) :
    clauseThenFrom? before cs = some ([], found) := by
  rw [clauseThenFrom?.eq_def, fits]

theorem clauseThenFrom?_later {c : Char} (fails : fromSpecifier? before (c :: cs) = none) :
    clauseThenFrom? before (c :: cs) = if c = '\'' ∨ c = '"' ∨ c = ';' then none
      else (clauseThenFrom? (some c) cs).map fun (clause, found) => (c :: clause, found) := by
  rw [clauseThenFrom?.eq_def, fails]

theorem clauseThenFrom?_opens {found : List Char × List Char × List Char}
    (fits : clauseThenFrom? before cs = some found) :
    ∃ lead, Opens lead cs ∧ (solid lead).getLast? = some 'm' := by
  have ends {lead : List Char} (word : solid lead = "from".toList) : (solid lead).getLast? = some 'm' := by
    rw [word]
    decide
  induction cs generalizing before found with
  | nil =>
    cases hit : fromSpecifier? before [] with
    | some specifier =>
      obtain ⟨lead, opens, word⟩ := fromSpecifier?_opens hit
      exact ⟨lead, opens, ends word⟩
    | none =>
      rw [clauseThenFrom?.eq_def, hit] at fits
      contradiction
  | cons c cs ih =>
    cases hit : fromSpecifier? before (c :: cs) with
    | some specifier =>
      obtain ⟨lead, opens, word⟩ := fromSpecifier?_opens hit
      exact ⟨lead, opens, ends word⟩
    | none =>
      rw [clauseThenFrom?_later hit] at fits
      by_cases closed : c = '\'' ∨ c = '"' ∨ c = ';'
      · simp [closed] at fits
      · rw [if_neg closed] at fits
        obtain ⟨later, fits, -⟩ := Option.map_eq_some_iff.mp fits
        obtain ⟨lead, opens, last⟩ := ih fits
        refine ⟨[c] ++ lead, opens.append ?_, ?_⟩
        · intro d member
          obtain rfl := List.mem_singleton.mp member
          rw [← Bool.not_eq_true, isMark_iff]
          tauto
        · rw [solid_append, List.getLast?_append, last]
          rfl

theorem clauseStart?_suffix {rest : List Char} (fits : clauseStart? cs = some rest) :
    ∃ gap, cs = gap ++ rest ∧ ∀ c ∈ gap, isBlank c = true := by
  have whole : cs.takeWhile isBlank ++ cs.dropWhile isBlank = cs := List.takeWhile_append_dropWhile
  have blank : ∀ c ∈ cs.takeWhile isBlank, isBlank c = true := fun _ => List.mem_takeWhile_imp
  unfold clauseStart? at fits
  generalize cs.takeWhile isBlank = blanks at *
  generalize cs.dropWhile isBlank = later at *
  subst whole
  have all (same : rest = later) : ∃ gap, blanks ++ later = gap ++ rest ∧ ∀ c ∈ gap, isBlank c = true :=
    ⟨blanks, by rw [same], blank⟩
  dsimp only at fits
  split at fits
  · cases fits
  · split at fits
    · cases fits
    · exact all (Option.some.inj fits).symm
  · split at fits
    · -- the last blank is left to what follows
      refine ⟨blanks.take (blanks.length - 1), ?_, ?_⟩
      · rw [← Option.some.inj fits, ← List.append_assoc, List.take_append_drop]
      · exact fun c member => blank c (List.mem_of_mem_take member)
    · exact all (Option.some.inj fits).symm

theorem afterAny?_eq_some {words : List String} {rest : List Char} (fits : afterAny? words cs = some rest) :
    ∃ word ∈ words, cs = word.toList ++ rest := by
  obtain ⟨word, member, fits⟩ := List.exists_of_findSome?_eq_some fits
  exact ⟨word, member, after?_eq_some_iff.mp fits⟩

theorem fromStatement_opens {found : Import × List Char} (fits : fromStatement before cs = some found) :
    ∃ lead, Opens lead cs ∧ (solid lead).getLast? = some 'm' := by
  unfold fromStatement at fits
  split at fits
  · obtain ⟨found, fits, -⟩ := Option.map_eq_some_iff.mp fits
    obtain ⟨rest, fits, clause⟩ := Option.bind_eq_some_iff.mp fits
    obtain ⟨behind, begins, start⟩ := Option.bind_eq_some_iff.mp fits
    obtain ⟨word, member, rfl⟩ := afterAny?_eq_some begins
    obtain ⟨gap, rfl, blank⟩ := clauseStart?_suffix start
    obtain ⟨lead, opens, last⟩ := clauseThenFrom?_opens clause
    refine ⟨word.toList ++ (gap ++ lead), ?_, ?_⟩
    · apply (opens.append fun c member => notMark_of_blank (blank c member)).append
      rcases List.mem_pair.mp member with rfl | rfl <;> simp [isMark]
    · rw [solid_append, solid_append, List.getLast?_append, List.getLast?_append, last]
      rfl
  · contradiction

theorem bareStatement_opens {found : Import × List Char} (fits : bareStatement before cs = some found) :
    ∃ lead, Opens lead cs ∧ (solid lead).getLast? = some 't' := by
  unfold bareStatement at fits
  split at fits
  · obtain ⟨found, fits, -⟩ := Option.map_eq_some_iff.mp fits
    obtain ⟨rest, word, quoted⟩ := Option.bind_eq_some_iff.mp fits
    have text : cs = cs.takeWhile isIndent ++ ("import".toList ++ rest) := by
      rw [← after?_eq_some_iff.mp word, List.takeWhile_append_dropWhile]
    have opens := opens_of_quoted (Option.isSome_of_eq_some quoted)
    refine ⟨cs.takeWhile isIndent ++ ("import".toList ++ rest.takeWhile isBlank), ?_, ?_⟩
    · nth_rewrite 2 [text]
      apply Opens.append
      · exact opens.append (by simp [isMark])
      · exact fun c member => notMark_of_indent (List.mem_takeWhile_imp member)
    · rw [solid_append, solid_append, solid_takeWhile, List.append_nil, List.getLast?_append]
      have word : (solid "import".toList).getLast? = some 't' := by decide
      rw [word]
      rfl
  · contradiction

/-- A call begins at its word. -/
theorem loadCall_opens {found : Import × List Char} (fits : loadCall before cs = some found) :
    ∃ lead, Opens lead cs ∧ (solid lead = "require(".toList ∨ solid lead = "import(".toList) ∧
      ∀ c ∈ cs.head?, isBlank c = false := by
  simp only [loadCall, Option.bind_eq_bind, Option.bind_eq_some_iff] at fits
  obtain ⟨-, -, rest, begins, inside, bracket, ⟨specifier, after⟩, quoted, -⟩ := fits
  obtain ⟨word, member, rfl⟩ := afterAny?_eq_some begins
  have text : rest = rest.takeWhile isBlank ++ (['('] ++ inside) := by
    rw [← after?_eq_some_iff.mp bracket, List.takeWhile_append_dropWhile]
  have opens : Opens (rest.takeWhile isBlank ++ (['('] ++ inside.takeWhile isBlank)) rest := by
    nth_rewrite 2 [text]
    apply Opens.append
    · exact (opens_of_quoted (Option.isSome_of_eq_some quoted)).append (by simp [isMark])
    · exact fun c member => notMark_of_blank (List.mem_takeWhile_imp member)
  refine ⟨word.toList ++ _, opens.append ?_, ?_, ?_⟩
  · rcases List.mem_pair.mp member with rfl | rfl <;> simp [isMark]
  · simp only [solid_append, solid_takeWhile, List.append_nil, List.nil_append]
    rcases List.mem_pair.mp member with rfl | rfl
    · exact .inl (by decide)
    · exact .inr (by decide)
  · rcases List.mem_pair.mp member with rfl | rfl <;> simp <;> decide

/-- A pattern that leads to quotes with `last` before them, blanks apart. No sign that ends a statement begins it. -/
structure LeadsBy (last : Char) (s : Scanner Import) : Prop where
  begins : ∀ before c cs, c = ';' ∨ c = ')' ∨ c = '\n' → s before (c :: cs) = none
  opens : ∀ before cs found, s before cs = some found →
    ∃ lead, Opens lead cs ∧ (solid lead).getLast? = some last

theorem fromStatement_leadsBy : LeadsBy 'm' fromStatement where
  begins before c cs ends := by
    rcases ends with rfl | rfl | rfl <;> simp [fromStatement, afterAny?, after?]
  opens _ _ _ := fromStatement_opens

theorem bareStatement_leadsBy : LeadsBy 't' bareStatement where
  begins before c cs ends := by
    rcases ends with rfl | rfl | rfl <;> simp [bareStatement, isIndent, after?]
  opens _ _ _ := bareStatement_opens

theorem loadCall_leadsBy : LeadsBy '(' loadCall where
  begins before c cs ends := by
    rcases ends with rfl | rfl | rfl <;> simp [loadCall, afterAny?, after?]
  opens before cs found fits := by
    obtain ⟨lead, opens, word, -⟩ := loadCall_opens fits
    refine ⟨lead, opens, ?_⟩
    rcases word with word | word <;> rw [word] <;> decide

namespace LeadsBy

variable {last q : Char} {s : Scanner Import} {front rest : List Char}

theorem silent (leads : LeadsBy last s) (mark : isMark q = true) (unquoted : ∀ c ∈ front, isMark c = false)
    (misfit : (solid front).getLast? = some last → quotedSpecifier? (q :: rest) = none) :
    Silent s before (front ++ [q]) rest := by
  apply silent_of_suffix
  intro before tail nonempty suffix
  rcases List.suffix_concat_iff.mp suffix with rfl | ⟨tail, rfl, skipped, rfl⟩
  · contradiction
  · rw [Option.eq_none_iff_forall_ne_some]
    intro found fits
    obtain ⟨lead, opens, ends⟩ := leads.opens _ _ _ fits
    rw [List.append_assoc] at opens
    obtain ⟨rfl, quoted⟩ := opens.eq (fun c member => unquoted c (List.mem_append_right _ member)) mark
    -- The same quote comes next, however much has been passed, and so does what stands last before it.
    have whole : (solid (skipped ++ lead)).getLast? = some last := by
      rw [solid_append, List.getLast?_append, ends]
      rfl
    simp [misfit whole] at quoted

/-- What follows the closing quote is no file in quotes, for the line ends before other quotes come. -/
theorem not_quoted_ending {ending tail : List Char} (ends : ∀ c ∈ ending, c = ';' ∨ c = ')') (line : LineEnd tail) :
    quotedSpecifier? (q :: (ending ++ tail)) = none := by
  have inner : ∀ c ∈ ending, (c != '\'' && c != '"' && c != '\n') = true := by
    intro c member
    rcases ends c member with rfl | rfl <;> rfl
  have stops : (ending ++ tail).dropWhile (fun c => c != '\'' && c != '"' && c != '\n') = tail :=
    dropWhile_append_of_stop inner (line.stops rfl)
  unfold quotedSpecifier?
  by_cases mark : q = '\'' ∨ q = '"'
  · simp only [if_pos mark, stops]
    generalize (ending ++ tail).takeWhile _ = specifier
    cases specifier with
    | nil => rfl
    | cons d specifier =>
      cases tail with
      | nil => rfl
      | cons c tail =>
        obtain rfl := line c rfl
        rfl
  · simp only [if_neg mark]

theorem silent_ending (leads : LeadsBy last s) {ending tail : List Char} (ends : ∀ c ∈ ending, c = ';' ∨ c = ')') :
    Silent s before ending tail := by
  induction ending generalizing before with
  | nil => trivial
  | cons c ending ih =>
    obtain ⟨here, later⟩ := List.forall_mem_cons.mp ends
    exact ⟨leads.begins _ _ _ (here.imp_right .inl), ih later⟩

/-- Where something else stands before a file than a pattern needs, the pattern finds nothing, neither before the file
nor within its quotes nor behind them. -/
theorem finds_nil (leads : LeadsBy last s) {lead ending : List Char} (source : Source)
    (unquoted : ∀ c ∈ lead, isMark c = false) (other : (solid lead).getLast? ≠ some last)
    (ends : ∀ c ∈ ending, c = ';' ∨ c = ')') : Finds s (lead ++ (source.literal ++ ending)) [] := by
  have pieces : lead ++ (source.literal ++ ending) =
      (lead ++ [source.quote]) ++ ((source.specifier ++ [source.quote]) ++ ending) := by
    simp [Source.literal]
  rw [pieces]
  apply Import.finds_nil
  intro before tail _ line
  apply Silent.append
  · exact leads.silent source.isMark unquoted fun ends => absurd ends other
  · apply Silent.append
    · apply leads.silent source.isMark
      · exact fun c member => (source.inside c member).1
      · exact fun _ => not_quoted_ending ends line
    · exact leads.silent_ending ends

end LeadsBy
end ChangeLens.Import.Ecmascript
