import ChangeLens.Proofs.Import.Ecmascript.Statement

/-! The clauses of import statements as texts, and the names that are read from them. -/
namespace ChangeLens.Import.Ecmascript

open Text

/-- The signs beyond which no clause is looked for. -/
def Closes (c : Char) : Prop := c = '\'' ∨ c = '"' ∨ c = ';'

/-- A text that may stand between `import` and `from`. -/
structure IsClause (cs : List Char) : Prop where
  clear : ∀ c, Closes c → c ∉ cs
  first : ∃ c ∈ cs.head?, isBlank c = false ∧ c ≠ '('
  last : ∀ c ∈ cs.getLast?, isBlank c = false

namespace IsClause

variable {cs ds : List Char}

theorem nonempty (clause : IsClause cs) : cs ≠ [] := by
  rintro rfl
  obtain ⟨c, first, -⟩ := clause.first
  contradiction

theorem trimChars (clause : IsClause cs) : trimChars cs = cs := by
  apply trimWhile_eq_self _ clause.last
  obtain ⟨c, first, solid, -⟩ := clause.first
  intro d member
  obtain rfl := Option.mem_unique first member
  exact solid

end IsClause

theorem isClause_word (w : Word) : IsClause w.chars where
  clear c closes := by
    apply w.notMem
    rcases closes with rfl | rfl | rfl <;> rfl
  first := by
    obtain ⟨c, cs, equal⟩ := List.exists_cons_of_ne_nil w.nonempty
    have plain := w.plain c (equal ▸ .head cs)
    refine ⟨c, by rw [equal]; rfl, isBlank_of_isPlain plain, ?_⟩
    rintro rfl
    contradiction
  last := by simpa using w.getLast_not_blank []

theorem isClause_braced (l : NameList) : IsClause (braced l) where
  clear c closes := by
    have apart : c ∉ l.chars := by
      rcases closes with rfl | rfl | rfl <;> exact l.notMem_chars rfl (by decide) (by decide)
    simp only [braced, List.mem_append, List.mem_singleton, not_or]
    rcases closes with rfl | rfl | rfl <;> exact ⟨by decide, apart, by decide⟩
  first := ⟨_, rfl, by decide, by decide⟩
  last c last := by
    rw [braced, ← List.append_assoc, List.getLast?_append] at last
    obtain rfl := Option.some.inj last
    decide

theorem isClause_star : IsClause ['*'] where
  clear c closes := by rcases closes with rfl | rfl | rfl <;> decide
  first := ⟨_, rfl, by decide, by decide⟩
  last c last := by
    obtain rfl := Option.some.inj last
    decide

theorem isClause_after {gap cs : List Char} (clear : ∀ c, Closes c → c ∉ gap)
    (first : ∃ c ∈ (gap ++ cs).head?, isBlank c = false ∧ c ≠ '(') (clause : IsClause cs) : IsClause (gap ++ cs) where
  clear c closes := by
    rw [List.mem_append, not_or]
    exact ⟨clear c closes, clause.clear c closes⟩
  first := first
  last := by
    rw [List.getLast?_append_of_ne_nil _ clause.nonempty]
    exact clause.last

theorem Group.isClause (g : Group) : IsClause g.chars := by
  cases g with
  | names list => exact isClause_braced list
  | all name =>
    rw [Group.chars, ← List.append_assoc]
    apply isClause_after _ ⟨_, rfl, by decide, by decide⟩ (isClause_word name.toWord)
    rintro c (rfl | rfl | rfl) <;> decide

theorem Clause.isClause (c : Clause) : IsClause c.chars := by
  cases c with
  | default name => exact isClause_word name.toWord
  | group first g =>
    cases first with
    | none => exact g.isClause
    | some name =>
      have word := isClause_word name.toWord
      apply isClause_after _ _ g.isClause
      · rintro c closes
        simp only [front, List.mem_append, not_or]
        refine ⟨word.clear c closes, ?_⟩
        rcases closes with rfl | rfl | rfl <;> decide
      · obtain ⟨c, first, solid⟩ := word.first
        exact ⟨c, by simp [front, Option.mem_def.mp first], solid⟩

theorem isIdentifierPart_of_isPlain {c : Char} (plain : isPlain c = true) (dotless : c ≠ '.') :
    isIdentifierPart c = true := by
  have ascii := (toNat_of_isPlain plain).2
  simp only [isPlain, Bool.or_eq_true, beq_iff_eq] at plain
  simp only [isIdentifierPart, isWordChar, if_pos ascii, Bool.or_eq_true, beq_iff_eq]
  tauto

theorem takeIdentifier?_append (name : Identifier) {rest : List Char}
    (stops : ∀ c ∈ rest.head?, isIdentifierPart c = false) :
    takeIdentifier? (name.chars ++ rest) = some (name.chars, rest) := by
  have parts : ∀ c ∈ name.chars, isIdentifierPart c = true := by
    intro c member
    apply isIdentifierPart_of_isPlain (name.plain c member)
    rintro rfl
    exact name.dotless member
  have starts := name.starts
  obtain ⟨c, cs, equal⟩ := List.exists_cons_of_ne_nil name.nonempty
  rw [equal] at parts starts ⊢
  have parts := (List.forall_mem_cons.mp parts).2
  rw [List.cons_append, takeIdentifier?, if_pos (starts c rfl), takeWhile_append_of_stop parts stops,
    dropWhile_append_of_stop parts stops]

theorem dropWhile_blank_name (name : Word) (rest : List Char) :
    (name.chars ++ rest).dropWhile isBlank = name.chars ++ rest := by
  obtain ⟨c, cs, equal⟩ := List.exists_cons_of_ne_nil name.nonempty
  have first := name.head_not_blank rest
  rw [equal] at first ⊢
  exact List.dropWhile_cons_of_neg (by simp [first c rfl])

theorem defaultName?_name (name : Identifier) : defaultName? name.chars = some name.text := by
  have taken : takeIdentifier? (name.chars ++ []) = some (name.chars, []) := takeIdentifier?_append name (by simp)
  rw [List.append_nil] at taken
  rw [defaultName?, ← List.append_nil name.chars, dropWhile_blank_name, List.append_nil, taken]
  rfl

theorem defaultName?_front (first : Option DefaultName) {rest : List Char} (other : rest = [] ∨ rest.head? = some '*') :
    defaultName? (front first ++ rest) = first.map (·.text) := by
  cases first with
  | none =>
    rcases other with rfl | star
    · rfl
    · obtain ⟨more, rfl⟩ := List.head?_eq_some_iff.mp star
      rfl
  | some name =>
    have taken : takeIdentifier? (name.chars ++ (',' :: ' ' :: rest)) = some (name.chars, ',' :: ' ' :: rest) := by
      apply takeIdentifier?_append
      intro c first
      obtain rfl := Option.some.inj first
      decide
    rw [front, List.append_assoc, defaultName?, dropWhile_blank_name]
    simp only [List.cons_append, List.nil_append, taken]
    rfl

theorem allName?_append {cs : List Char} (absent : '*' ∉ cs) (rest : List Char) :
    allName? (cs ++ rest) = allName? rest := by
  induction cs with
  | nil => rfl
  | cons c cs ih =>
    obtain ⟨here, later⟩ := not_or.mp (mt List.mem_cons.mpr absent)
    rw [List.cons_append, allName?, if_neg (Ne.symm here), ih later]

theorem notMem_front (first : Option DefaultName) {c : Char} (notPlain : isPlain c = false)
    (other : c ∉ [',', ' ']) : c ∉ front first := by
  cases first with
  | none => exact List.not_mem_nil
  | some name =>
    simp only [front, List.mem_append, not_or]
    exact ⟨name.notMem notPlain, other⟩

theorem starName?_name (name : Identifier) : starName? (" as ".toList ++ name.chars) = some name.text := by
  have word : after? ['a', 's'] ((" as ".toList ++ name.chars).dropWhile isBlank) = some (' ' :: name.chars) := rfl
  have taken : takeIdentifier? (name.chars ++ []) = some (name.chars, []) := takeIdentifier?_append name (by simp)
  rw [starName?, word]
  simp only [show isBlank ' ' = true from rfl, if_true]
  rw [← List.append_nil name.chars, dropWhile_blank_name, taken]
  rfl

theorem untyped (c : Clause) : after? "type ".toList c.chars = none := by
  rw [Option.eq_none_iff_forall_ne_some]
  intro rest typed
  rw [after?_eq_some_iff] at typed
  cases c with
  | default name =>
    have blank : ' ' ∈ name.chars := by simp [show name.chars = _ from typed]
    exact name.notMem rfl blank
  | group first g =>
    cases first with
    | none => cases g <;> cases typed
    | some name =>
      -- the word before the first blank ends in a comma
      have split : cutFirst ' ' ((name.chars ++ [',']) ++ ' ' :: g.chars) =
          cutFirst ' ' ("type".toList ++ ' ' :: rest) := by
        simpa [Clause.chars, front] using congrArg (cutFirst ' ') typed
      have absent : ' ' ∉ name.chars ++ [','] := by
        simp only [List.mem_append, not_or]
        exact ⟨name.notMem rfl, by decide⟩
      rw [cutFirst_append absent, cutFirst_append (by decide)] at split
      have comma : ',' ∈ "type".toList := by
        rw [← (Prod.mk.inj split).1]
        simp
      revert comma
      decide

theorem clauseSymbols_braced_after {before : List Char} {list : NameList} (clause : IsClause (before ++ braced list))
    (plain : after? "type ".toList (before ++ braced list) = none) (absent : '\x7b' ∉ before) :
    clauseSymbols (.ofList (before ++ braced list)) =
      ((defaultName? before).filter (· != "type")).toList ++ list.names ++
        ((allName? before).map ("* as " ++ ·)).toList := by
  have cut : cutBraces? (before ++ braced list) = some (list.chars, before) := by
    have body : '\x7d' ∉ list.chars := list.notMem_chars rfl (by decide) (by decide)
    rw [cutBraces?, braced, List.singleton_append, cutFirst_append absent]
    dsimp only
    rw [cutFirst_append body]
    simp
  have text : (String.ofList (before ++ braced list)).toList = before ++ braced list := String.toList_ofList
  rw [clauseSymbols, text, clause.trimChars, plain]
  dsimp only [Option.getD_none]
  rw [cut]
  dsimp only
  rw [list.listNames_chars]

theorem clauseSymbols_unbraced {cs : List Char} (clause : IsClause cs) (plain : after? "type ".toList cs = none)
    (absent : '\x7b' ∉ cs) : clauseSymbols (.ofList cs) =
      ((defaultName? cs).filter (· != "type")).toList ++ ((allName? cs).map ("* as " ++ ·)).toList := by
  have cut : cutBraces? cs = none := by
    rw [cutBraces?, cutFirst_of_notMem absent]
  have text : (String.ofList cs).toList = cs := String.toList_ofList
  rw [clauseSymbols, text, clause.trimChars, plain]
  dsimp only [Option.getD_none]
  rw [cut]
  simp

theorem filter_name (name : DefaultName) : (some name.text).filter (· != "type") = some name.text := by
  have other : name.text ≠ "type" := by
    intro same
    apply name.notType
    rw [← same, Word.text, String.toList_ofList]
  simp [other]

theorem filter_names (first : Option DefaultName) :
    (first.map (·.text)).filter (· != "type") = first.map (·.text) := by
  cases first with
  | none => rfl
  | some name => exact filter_name name

/-- The names of a clause are read from its text. -/
theorem clauseSymbols_chars (c : Clause) : clauseSymbols (.ofList c.chars) = c.symbols := by
  have clause := c.isClause
  have plain := untyped c
  cases c with
  | default name =>
    rw [Clause.chars] at clause plain ⊢
    have single : allName? name.chars = none := by
      simpa [allName?] using allName?_append (name.notMem (c := '*') rfl) []
    rw [clauseSymbols_unbraced clause plain (name.notMem rfl), defaultName?_name, filter_name, single]
    rfl
  | group first g =>
    rw [Clause.chars] at clause plain ⊢
    have noStar : '*' ∉ front first := notMem_front first rfl (by decide)
    cases g with
    | names list =>
      have unnamed : allName? (front first) = none := by simpa [allName?] using allName?_append noStar []
      have named := defaultName?_front first (.inl rfl)
      rw [List.append_nil] at named
      rw [Group.chars] at clause plain ⊢
      rw [clauseSymbols_braced_after clause plain (notMem_front first rfl (by decide)), named,
        filter_names, unnamed]
      simp [Clause.symbols, Group.symbols]
    | all name =>
      have unbraced : '\x7b' ∉ front first ++ (Group.all name).chars := by
        simp only [Group.chars, List.mem_append, not_or]
        exact ⟨notMem_front first rfl (by decide), by decide, by decide, name.notMem rfl⟩
      have whole : allName? (Group.all name).chars = some name.text := by
        rw [Group.chars, List.singleton_append, allName?, if_pos rfl, starName?_name]
        rfl
      rw [clauseSymbols_unbraced clause plain unbraced, defaultName?_front first (.inr rfl),
        filter_names, allName?_append noStar, whole]
      rfl

theorem clauseSymbols_braced (list : NameList) : clauseSymbols (.ofList (braced list)) = list.names :=
  clauseSymbols_chars (.group none (.names list))

end ChangeLens.Import.Ecmascript
