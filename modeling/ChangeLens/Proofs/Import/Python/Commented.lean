import ChangeLens.Proofs.Import.Python.Scanned
import ChangeLens.Resolution

/-! Lists of names in brackets with a name on each line and comments behind them. The list is cut at commas before its
comments are, so a comment takes with it all up to the next comma: the name on the next line is lost, and what a
comment says behind a comma of its own is read as more names. The module is always read as it is written, and so are
the names that no comment comes before. -/
namespace ChangeLens.Import.Python

open Text

/-- The signs of which a name can consist: none of them ends an item of a list. -/
def inItem (c : Char) : Bool := !isBlank c && c != ',' && c != '#' && c != ')'

/-- A name of a list; `import` is kept for statements. -/
structure Identifier where
  chars : List Char
  nonempty : chars ≠ []
  inside : ∀ c ∈ chars, inItem c = true
  notImport : chars ≠ "import".toList

def Identifier.text (i : Identifier) : String := .ofList i.chars

/-- What stands behind the sign of a comment. -/
structure Comment where
  chars : List Char
  inside : ∀ c ∈ chars, c ≠ '\n' ∧ c ≠ ')'

/-- One line of a list: `name as alias,  # comment`. -/
structure Entry where
  name : Identifier
  alias? : Option Identifier := none
  comment? : Option Comment := none

namespace Entry

def item (e : Entry) : List Char := e.name.chars ++ (e.alias?.map fun a => " as ".toList ++ a.chars).getD []

def remark (comment? : Option Comment) : List Char := (comment?.map fun c => [' ', ' ', '#'] ++ c.chars).getD []

def uncommented (e : Entry) : Entry := { e with comment? := none }

end Entry

/-- A statement that takes the names of some entries from a module. -/
structure Bracketed where
  source : List Char
  nonempty : source ≠ []
  inside : ∀ c ∈ source, inModule c = true
  indent : List Char
  indents : ∀ c ∈ indent, isIndent c = true
  entries : List Entry

namespace Bracketed

variable (indent : List Char)

def lines : List Entry → List Char
  | [] => []
  | e :: es => indent ++ (e.item ++ ',' :: (Entry.remark e.comment? ++ '\n' :: lines es))

def list (s : Bracketed) : List Char := '\n' :: lines s.indent s.entries

def chars (s : Bracketed) : List Char :=
  ['f', 'r', 'o', 'm', ' '] ++ (s.source ++ ([' ', 'i', 'm', 'p', 'o', 'r', 't', ' ', '('] ++ (s.list ++ [')'])))

def names (s : Bracketed) : List String := s.entries.map (·.name.text)

def uncommented (s : Bracketed) : Bracketed := { s with entries := s.entries.map Entry.uncommented }

/-- What a comment is read as, with `rest` on the next line: nothing up to its first comma, and all behind that as names
of the list. -/
def spilled (c : Comment) (rest : List Char) : List String :=
  match cutFirst ',' c.chars with
  | (_, none) => []
  | (_, some behind) => listNames (behind ++ '\n' :: rest)

def readBehind : Option Comment → List Entry → List String
  | none, [] => []
  | some c, [] => spilled c []
  | none, e :: es => e.name.text :: readBehind e.comment? es
  | some c, e :: es => spilled c (indent ++ e.item) ++ readBehind e.comment? es

/-- The names of the entries that no comment comes before on the line above. -/
def clearNames : Option Comment → List Entry → List String
  | _, [] => []
  | none, e :: es => e.name.text :: clearNames e.comment? es
  | some _, e :: es => clearNames e.comment? es

def heard (s : Bracketed) : List String := readBehind s.indent none s.entries

end Bracketed

theorem solid_of_inItem {c : Char} (inside : inItem c = true) : isBlank c = false := by
  simp only [inItem, Bool.and_eq_true, Bool.not_eq_true'] at inside
  exact inside.1.1.1

theorem Identifier.notMem (i : Identifier) {c : Char} (other : inItem c = false) : c ∉ i.chars := by
  intro member
  rw [i.inside c member] at other
  contradiction

theorem Identifier.not_blank (i : Identifier) : ∀ c ∈ i.chars, isBlank c = false := fun c member =>
  solid_of_inItem (i.inside c member)

namespace Entry

theorem notMem_item (e : Entry) {c : Char} (other : inItem c = false) (spelled : c ∉ " as ".toList) : c ∉ e.item := by
  unfold item
  rw [List.mem_append, not_or]
  refine ⟨e.name.notMem other, ?_⟩
  cases e.alias? with
  | none => exact List.not_mem_nil
  | some a =>
    rw [Option.map_some, Option.getD_some, List.mem_append, not_or]
    exact ⟨spelled, a.notMem other⟩

theorem notMem_remark {comment? : Option Comment} {c : Char} (other : c ∉ [' ', ' ', '#'])
    (absent : ∀ said ∈ comment?, c ∉ said.chars) : c ∉ remark comment? := by
  cases comment? with
  | none => exact List.not_mem_nil
  | some said =>
    show c ∉ [' ', ' ', '#'] ++ said.chars
    rw [List.mem_append, not_or]
    exact ⟨other, absent said rfl⟩

theorem item_head (e : Entry) : ∀ c ∈ e.item.head?, isBlank c = false := by
  obtain ⟨d, ds, equal⟩ := List.exists_cons_of_ne_nil e.name.nonempty
  intro c first
  simp only [item, equal, List.cons_append, List.head?_cons, Option.mem_def, Option.some.injEq] at first
  subst first
  exact e.name.not_blank d (by simp [equal])

theorem item_getLast (e : Entry) : ∀ c ∈ e.item.getLast?, isBlank c = false := by
  unfold item
  intro c last
  cases renamed : e.alias? with
  | none =>
    rw [renamed, Option.map_none, Option.getD_none, List.append_nil] at last
    exact e.name.not_blank c (List.mem_of_getLast? last)
  | some a =>
    rw [renamed, Option.map_some, Option.getD_some, ← List.append_assoc,
      List.getLast?_append_of_ne_nil _ a.nonempty] at last
    exact a.not_blank c (List.mem_of_getLast? last)

theorem beforeAlias_item (e : Entry) : beforeAlias e.item = e.name.chars := by
  unfold item
  rw [beforeAlias_append e.name.not_blank]
  cases e.alias? with
  | none => simp [beforeAlias]
  | some a =>
    have follows : aliasFollows (' ' :: ('a' :: 's' :: ' ' :: a.chars)) = true := rfl
    have renamed : beforeAlias (" as ".toList ++ a.chars) = [] := by
      show beforeAlias (' ' :: ('a' :: 's' :: ' ' :: a.chars)) = []
      rw [beforeAlias, follows]
      rfl
    rw [Option.map_some, Option.getD_some, renamed, List.append_nil]

/-- Behind blanks an entry is read as its name. -/
theorem itemName?_item (e : Entry) {blanks : List Char} (blank : ∀ c ∈ blanks, isBlank c = true) :
    itemName? (blanks ++ e.item) = some e.name.text := by
  have uncommented : '#' ∉ blanks ++ (e.item ++ []) := by
    rw [List.append_nil, List.mem_append, not_or]
    refine ⟨fun member => ?_, e.notMem_item (by decide) (by decide)⟩
    exact absurd (blank _ member) (by decide)
  have read := itemName?_of_core blank (by simp) uncommented e.item_head e.item_getLast e.beforeAlias_item
    e.name.nonempty e.name.not_blank
  rwa [List.append_nil] at read

end Entry

theorem listNames_comma (cs rest : List Char) : listNames (cs ++ ',' :: rest) = listNames cs ++ listNames rest := by
  simp [listNames, List.splitOn_append_cons_self]

theorem listNames_of_notMem {cs : List Char} (single : ',' ∉ cs) : listNames cs = (itemName? cs).toList := by
  rw [listNames, List.splitOn_eq_singleton single]
  cases read : itemName? cs <;> simp [read]

/-- Behind its sign a comment takes the rest of its piece. -/
theorem itemName?_commented {blanks : List Char} (blank : ∀ c ∈ blanks, isBlank c = true) (rest : List Char) :
    itemName? (blanks ++ '#' :: rest) = none := by
  have apart : '#' ∉ blanks := fun member => absurd (blank _ member) (by decide)
  rw [itemName?, cutFirst_append apart, trimChars_blank blank]
  rfl

namespace Bracketed

theorem spilled_of_notMem {c : Comment} (single : ',' ∉ c.chars) (rest : List Char) : spilled c rest = [] := by
  rw [spilled, cutFirst_of_notMem single]

/-- A comment is read together with the next line. -/
theorem listNames_remark (c : Comment) {rest : List Char} (single : ',' ∉ rest) :
    listNames (Entry.remark (some c) ++ '\n' :: rest) = spilled c rest := by
  have blank : ∀ c ∈ [' ', ' '], isBlank c = true := List.all_eq_true.mp rfl
  have signed (cs : List Char) : itemName? ([' ', ' '] ++ '#' :: cs) = none := itemName?_commented blank cs
  by_cases comma : ',' ∈ c.chars
  · obtain ⟨first, behind, split, fresh⟩ := List.eq_append_cons_of_mem comma
    have text : Entry.remark (some c) ++ '\n' :: rest =
        ([' ', ' '] ++ '#' :: first) ++ ',' :: (behind ++ '\n' :: rest) := by simp [Entry.remark, split]
    have alone : ',' ∉ [' ', ' '] ++ '#' :: first := by simpa using fresh
    rw [text, listNames_comma, listNames_of_notMem alone, signed, spilled, split, cutFirst_append fresh]
    rfl
  · have text : Entry.remark (some c) ++ '\n' :: rest = [' ', ' '] ++ '#' :: (c.chars ++ '\n' :: rest) := by
      simp [Entry.remark]
    have alone : ',' ∉ [' ', ' '] ++ '#' :: (c.chars ++ '\n' :: rest) := by simp [comma, single]
    rw [text, listNames_of_notMem alone, signed, spilled_of_notMem comma]
    rfl

section

variable {indent : List Char} (indents : ∀ c ∈ indent, isIndent c = true)
include indents

theorem blank_indent : ∀ c ∈ indent, isBlank c = true := by
  intro c member
  rcases isIndent_iff.mp (indents c member) with rfl | rfl <;> decide

theorem notMem_entry (e : Entry) {c : Char} (other : inItem c = false) (spelled : c ∉ " as ".toList)
    (solid : isIndent c = false) : c ∉ indent ++ e.item := by
  rw [List.mem_append, not_or]
  refine ⟨fun member => ?_, e.notMem_item other spelled⟩
  rw [indents c member] at solid
  contradiction

/-- The list is read line by line, each entry together with the comment before it. -/
theorem listNames_lines (comment? : Option Comment) (es : List Entry) :
    listNames (Entry.remark comment? ++ '\n' :: lines indent es) = readBehind indent comment? es := by
  induction es generalizing comment? with
  | nil =>
    cases comment? with
    | none => rfl
    | some c => exact listNames_remark c (by simp [lines])
  | cons e es ih =>
    have text : Entry.remark comment? ++ '\n' :: lines indent (e :: es) =
        (Entry.remark comment? ++ '\n' :: (indent ++ e.item)) ++
          ',' :: (Entry.remark e.comment? ++ '\n' :: lines indent es) := by simp [lines]
    have single : ',' ∉ indent ++ e.item := notMem_entry indents e (by decide) (by decide) (by decide)
    rw [text, listNames_comma, ih]
    cases comment? with
    | some c => rw [listNames_remark c single, readBehind]
    | none =>
      have blank : ∀ c ∈ '\n' :: indent, isBlank c = true :=
        List.forall_mem_cons.mpr ⟨by decide, blank_indent indents⟩
      have read : itemName? ('\n' :: indent ++ e.item) = some e.name.text := e.itemName?_item blank
      have alone : ',' ∉ '\n' :: indent ++ e.item := by simpa using single
      have first : Entry.remark none ++ '\n' :: (indent ++ e.item) = '\n' :: indent ++ e.item := rfl
      rw [first, listNames_of_notMem alone, read, readBehind]
      rfl

end

theorem readBehind_of_notMem (indent : List Char) {comment? : Option Comment} {es : List Entry}
    (here : ∀ c ∈ comment?, ',' ∉ c.chars) (later : ∀ e ∈ es, ∀ c ∈ e.comment?, ',' ∉ c.chars) :
    readBehind indent comment? es = clearNames comment? es := by
  induction es generalizing comment? with
  | nil =>
    cases comment? with
    | none => rfl
    | some c => exact spilled_of_notMem (here c rfl) []
  | cons e es ih =>
    obtain ⟨first, others⟩ := List.forall_mem_cons.mp later
    cases comment? with
    | none => rw [readBehind, clearNames, ih first others]
    | some c => rw [readBehind, clearNames, ih first others, spilled_of_notMem (here c rfl), List.nil_append]

theorem length_clearNames_le (comment? : Option Comment) (es : List Entry) :
    (clearNames comment? es).length ≤ es.length := by
  induction es generalizing comment? with
  | nil => simp [clearNames]
  | cons e es ih =>
    have := ih e.comment?
    cases comment? <;> simp [clearNames] <;> omega

/-- No name is missing just if no name comes behind a comment. -/
theorem clearNames_eq_iff (comment? : Option Comment) (es : List Entry) :
    clearNames comment? es = es.map (·.name.text) ↔
      (es = [] ∨ comment? = none) ∧ ∀ e ∈ es.dropLast, e.comment? = none := by
  induction es generalizing comment? with
  | nil => simp [clearNames]
  | cons e es ih =>
    cases comment? with
    | some c =>
      have shorter : clearNames (some c) (e :: es) ≠ (e :: es).map (·.name.text) := by
        intro same
        have lengths := congrArg List.length same
        have bound := length_clearNames_le e.comment? es
        simp only [clearNames, List.length_map, List.length_cons] at lengths
        omega
      exact ⟨fun same => absurd same shorter, fun ⟨behind, _⟩ => by simp at behind⟩
    | none =>
      rw [clearNames, List.map_cons, List.cons_inj_right, ih]
      cases es <;> simp

theorem readBehind_uncommented (indent : List Char) (es : List Entry) :
    readBehind indent none (es.map Entry.uncommented) = es.map (·.name.text) := by
  induction es with
  | nil => rfl
  | cons e es ih => simpa [readBehind, Entry.uncommented] using ih

theorem newline_notMem_line {indent : List Char} (indents : ∀ c ∈ indent, isIndent c = true) (e : Entry) :
    '\n' ∉ indent ++ e.item ++ ',' :: Entry.remark e.comment? := by
  have entry : '\n' ∉ indent ++ e.item := notMem_entry indents e (by decide) (by decide) (by decide)
  have remark : '\n' ∉ Entry.remark e.comment? :=
    Entry.notMem_remark (by decide) fun c _ member => (c.inside _ member).1 rfl
  simpa [remark] using entry

theorem bracket_notMem_lines {indent : List Char} (indents : ∀ c ∈ indent, isIndent c = true) (es : List Entry) :
    ')' ∉ lines indent es := by
  induction es with
  | nil => exact List.not_mem_nil
  | cons e es ih =>
    have entry : ')' ∉ indent ++ e.item := notMem_entry indents e (by decide) (by decide) (by decide)
    have remark : ')' ∉ Entry.remark e.comment? :=
      Entry.notMem_remark (by decide) fun c _ member => (c.inside _ member).2 rfl
    have split : lines indent (e :: es) =
        (indent ++ e.item) ++ ',' :: (Entry.remark e.comment? ++ '\n' :: lines indent es) := by simp [lines]
    rw [split, List.mem_append, not_or]
    exact ⟨entry, by simp [remark, ih]⟩

theorem not_begins_line {indent : List Char} (indents : ∀ c ∈ indent, isIndent c = true) (e : Entry)
    (rest : List Char) : ¬Begins (indent ++ e.item ++ ',' :: Entry.remark e.comment? ++ rest) := by
  have blank : ∀ c ∈ indent, c = ' ' ∨ c = '\t' ∨ c = '\n' := by
    intro c member
    exact (isIndent_iff.mp (indents c member)).imp_right .inl
  have outside : ∀ c, isIndent c = true → inItem c = false := by
    intro c indent
    rcases isIndent_iff.mp indent with rfl | rfl <;> decide
  have name (more : List Char) (edge : ∀ c ∈ more.head?, inItem c = false) : ¬Begins (e.name.chars ++ more) :=
    not_begins_of_solid e.name.nonempty e.name.notImport e.name.inside edge (List.all_eq_true.mp rfl) outside
  rw [List.append_assoc, List.append_assoc]
  apply not_begins_blank blank
  rw [Entry.item, List.append_assoc]
  apply name
  cases e.alias? with
  | none =>
    intro c first
    obtain rfl := Option.some.inj first
    rfl
  | some a =>
    intro c first
    obtain rfl := Option.some.inj first
    rfl

theorem passed_lines {indent : List Char} (indents : ∀ c ∈ indent, isIndent c = true) (es : List Entry)
    (rest : List Char) : Passed (lines indent es) rest := by
  induction es with
  | nil => exact fun _ => trivial
  | cons e es ih =>
    have split : lines indent (e :: es) =
        (indent ++ e.item ++ ',' :: Entry.remark e.comment?) ++ ('\n' :: lines indent es) := by simp [lines]
    rw [split]
    apply Passed.append
    · exact passed_line (not_begins_line indents e _) (newline_notMem_line indents e)
    · exact (passed_sign rfl (by decide) _).append ih

def foundBy : Pattern → Bracketed → List (Nat × List Import)
  | .names, s => [(0, [⟨.ofList s.source, s.heard⟩])]
  | .modules, _ => []

theorem finds_names (s : Bracketed) : Finds fromImport s.chars [(0, [⟨.ofList s.source, s.heard⟩])] := by
  have bracket : ')' ∉ s.list := by simpa [list] using bracket_notMem_lines s.indents s.entries
  have read : listNames s.list = s.heard := listNames_lines s.indents none s.entries
  apply finds_all
  · exact List.cons_ne_nil _ _
  · intro before tail start _
    have text : s.chars ++ tail = "from".toList ++ (' ' :: (s.source ++ (' ' :: ("import".toList ++
        (' ' :: ((['('] ++ (s.list ++ [')'])) ++ tail)))))) := by simp [chars]
    rw [text, fromImport_from start s.nonempty s.inside (importedNames?_brackets bracket tail)]
    have names : namesIn (['('] ++ (s.list ++ [')'])) = s.heard := (namesIn_brackets s.list).trans read
    rw [names]

theorem finds_modules (s : Bracketed) : Finds moduleImport s.chars [] := by
  have oneLine : '\n' ∉ ['r', 'o', 'm', ' '] ++ (s.source ++ [' ', 'i', 'm', 'p', 'o', 'r', 't', ' ', '(']) := by
    have source : '\n' ∉ s.source := fun member => absurd (s.inside _ member) (by decide)
    simp [source]
  have split : s.chars = 'f' :: (['r', 'o', 'm', ' '] ++ (s.source ++ [' ', 'i', 'm', 'p', 'o', 'r', 't', ' ', '('])) ++
      (['\n'] ++ (lines s.indent s.entries ++ [')'])) := by simp [chars, list]
  apply finds_nil
  intro before tail _ _
  rw [split]
  apply Silent.append
  · exact silent_from oneLine
  · have inner : Passed (lines s.indent s.entries ++ [')']) tail :=
      (passed_lines s.indents s.entries _).append (passed_sign rfl (by decide) tail)
    exact (passed_sign rfl (by decide) _).append inner _

/-- A scan finds one import in each statement of a text. -/
theorem ofText_written (ended : Bool) (statements : List Bracketed) :
    ofText "python" (.ofList (written chars ended statements)) =
      statements.map fun s => ⟨.ofList s.source, s.heard⟩ := by
  have finds (p : Pattern) (s : Bracketed) : Finds p.scanner s.chars (foundBy p s) := by
    cases p with
    | names => exact s.finds_names
    | modules => exact s.finds_modules
  have one (s : Bracketed) : [Pattern.names, .modules].flatMap (foundBy · s) =
      [(0, [⟨.ofList s.source, s.heard⟩])] := rfl
  have merged := inOrder_written Pattern.scanner_newline finds one (fun s => Nat.zero_le _) ended statements
  have joined := congrArg List.flatten merged
  rw [← List.flatMap_def, ← List.map_eq_flatMap] at joined
  simpa [ofText, Pattern.scanner] using joined

def text (s : Bracketed) (ended : Bool) : String := .ofList (s.chars ++ if ended then ['\n'] else [])

theorem ofText_text (s : Bracketed) (ended : Bool) :
    ofText "python" (s.text ended) = [⟨.ofList s.source, s.heard⟩] := by
  have whole : s.text ended = .ofList (written chars ended [s]) := rfl
  rw [whole, ofText_written]
  rfl

/-- A list in brackets is read as one import of its module, without its comments as one of the names in their order.
Where no comment has a comma, just the names on the line behind one are missing, so the comments change nothing just if
none but the last entry has one. -/
theorem ofText_bracketed {family path : String} (read : Resolution.familyOf family path = "python") (s : Bracketed)
    (ended : Bool) :
    let found := fun statement : Bracketed => ofText (Resolution.familyOf family path) (statement.text ended)
    found s = [⟨.ofList s.source, s.heard⟩] ∧
      found s.uncommented = [⟨.ofList s.source, s.names⟩] ∧
      ((∀ e ∈ s.entries, ∀ c ∈ e.comment?, ',' ∉ c.chars) →
        s.heard = clearNames none s.entries ∧
        (found s = found s.uncommented ↔ ∀ e ∈ s.entries.dropLast, e.comment? = none)) := by
  intro found
  have commented : found s = [⟨.ofList s.source, s.heard⟩] := by
    show ofText (Resolution.familyOf family path) (s.text ended) = _
    rw [read, s.ofText_text ended]
  have uncommented : found s.uncommented = [⟨.ofList s.source, s.names⟩] := by
    have names : s.uncommented.heard = s.names := readBehind_uncommented s.indent s.entries
    show ofText (Resolution.familyOf family path) (s.uncommented.text ended) = _
    rw [read, s.uncommented.ofText_text ended, names]
    rfl
  refine ⟨commented, uncommented, fun plain => ?_⟩
  have clear : s.heard = clearNames none s.entries := readBehind_of_notMem s.indent (by simp) plain
  refine ⟨clear, ?_⟩
  have unchanged : found s = found s.uncommented ↔ clearNames none s.entries = s.names := by
    rw [commented, uncommented, clear]
    simp
  have complete := clearNames_eq_iff none s.entries
  rw [unchanged, names, complete]
  simp

def loadStore (first? second? : Option Comment) : Bracketed where
  source := ['p', 'k', 'g']
  nonempty := List.cons_ne_nil _ _
  inside := List.all_eq_true.mp rfl
  indent := [' ', ' ', ' ', ' ']
  indents := List.all_eq_true.mp rfl
  entries := [
    { name := ⟨['l', 'o', 'a', 'd'], by decide, List.all_eq_true.mp rfl, by decide⟩, comment? := first? },
    { name := ⟨['s', 't', 'o', 'r', 'e'], by decide, List.all_eq_true.mp rfl, by decide⟩, comment? := second? }]

def remarkReads : Comment := ⟨[' ', 'r', 'e', 'a', 'd', 's'], by simp⟩

/-- Behind its comma this comment is read as a name, together with the next line. -/
def remarkReadsRows : Comment := ⟨[' ', 'r', 'e', 'a', 'd', 's', ',', ' ', 'r', 'o', 'w', 's'], by simp⟩

/-- Behind the last name a comment changes nothing. -/
theorem ofText_bracketed_last :
    Resolution.familyOf "" "io.py" = "python" ∧
      (∀ e ∈ (loadStore none remarkReads).entries, ∀ c ∈ e.comment?, ',' ∉ c.chars) ∧
      ofText "python" "from pkg import (\n    load,\n    store,  # reads\n)" = [⟨"pkg", ["load", "store"]⟩] := by
  have read : Resolution.familyOf "" "io.py" = "python" := by decide
  have plain : ∀ e ∈ (loadStore none remarkReads).entries, ∀ c ∈ e.comment?, ',' ∉ c.chars := by decide
  obtain ⟨-, uncommented, single⟩ := ofText_bracketed read (loadStore none remarkReads) false
  obtain ⟨-, unchanged⟩ := single plain
  have same := (unchanged.mpr (by decide)).trans uncommented
  rw [read] at same
  exact ⟨read, plain, same⟩

/-- Behind the first name a comment takes the second one with it, or the second is read together with what the comment
says behind a comma. -/
theorem name_lost :
    ofText "python" "from pkg import (\n    load,  # reads\n    store,\n)" = [⟨"pkg", ["load"]⟩] ∧
      ofText "python" "from pkg import (\n    load,  # reads, rows\n    store,\n)" =
        [⟨"pkg", ["load", "rows\n    store"]⟩] := by
  have lost := (loadStore remarkReads none).ofText_text false
  have spoilt := (loadStore remarkReadsRows none).ofText_text false
  have joined : (loadStore remarkReadsRows none).heard = ["load", "rows\n    store"] := by decide
  rw [joined] at spoilt
  exact ⟨lost, spoilt⟩

end Bracketed
end ChangeLens.Import.Python
