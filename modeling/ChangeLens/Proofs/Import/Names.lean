import ChangeLens.Import.Clause
import ChangeLens.Proofs.Text.Pieces
import Mathlib.Data.List.Basic

/-! Lists of names as they are written, with aliases and with blanks, line feeds among them, between any two words.
Reading such a list gives the names without their aliases, however it is laid out. -/
namespace ChangeLens.Import

open Text

/-- Letters, digits and the signs that names and paths of modules may have, all of ASCII. -/
def isPlain (c : Char) : Bool := isAsciiLetter c || isAsciiDigit c || c == '_' || c == '$' || c == '.'

/-- A name, or several with dots between them. `import` is kept for statements. -/
structure Word where
  chars : List Char
  nonempty : chars ≠ []
  plain : ∀ c ∈ chars, isPlain c = true
  notImport : chars ≠ "import".toList

def Word.text (w : Word) : String := .ofList w.chars

structure Gap where
  chars : List Char
  blank : ∀ c ∈ chars, c = ' ' ∨ c = '\t' ∨ c = '\n'

def Gap.empty : Gap := ⟨[], by simp⟩

def Gap.space : Gap := ⟨[' '], by simp⟩

structure Alias where
  before : Gap
  after : Gap
  name : Word
  before_nonempty : before.chars ≠ []
  after_nonempty : after.chars ≠ []

def Alias.chars (a : Alias) : List Char := a.before.chars ++ ("as".toList ++ (a.after.chars ++ a.name.chars))

structure Item where
  before : Gap
  name : Word
  alias? : Option Alias
  after : Gap

namespace Item

def core (i : Item) : List Char := i.name.chars ++ (i.alias?.map Alias.chars).getD []

def chars (i : Item) : List Char := i.before.chars ++ (i.core ++ i.after.chars)

end Item

/-- Names with commas between them. A comma may also stand behind the last one, with `last` behind it. -/
structure NameList where
  items : List Item
  last : Option Gap

namespace NameList

def parts (l : NameList) : List (List Char) := l.items.map Item.chars ++ l.last.toList.map Gap.chars

def chars (l : NameList) : List Char := [','].intercalate l.parts

def names (l : NameList) : List String := l.items.map (·.name.text)

end NameList

/-- A name that is listed on one line. -/
structure Listed where
  name : Word
  alias? : Option Word

def Listed.item (before : Gap) (l : Listed) : Item :=
  ⟨before, l.name, l.alias?.map (⟨.space, .space, ·, List.cons_ne_nil _ _, List.cons_ne_nil _ _⟩), .empty⟩

/-- The list as it stands on one line: `a, b as c`. -/
def NameList.inLine (first : Listed) (others : List Listed) : NameList :=
  ⟨first.item .empty :: others.map (·.item .space), none⟩

theorem toNat_of_isPlain {c : Char} (plain : isPlain c = true) : 36 ≤ c.toNat ∧ c.toNat < 128 := by
  simp only [isPlain, isAsciiLetter, isAsciiDigit, Bool.or_eq_true, Bool.and_eq_true, decide_eq_true_eq,
    beq_iff_eq, Char.le_def, UInt32.le_iff_toNat_le] at plain
  rcases plain with (((letter | digit) | rfl) | rfl) | rfl
  · rcases letter with ⟨low, high⟩ | ⟨low, high⟩ <;> simp at low high <;> omega
  · obtain ⟨low, high⟩ := digit
    simp at low high
    omega
  all_goals decide

theorem isBlank_of_isPlain {c : Char} (plain : isPlain c = true) : isBlank c = false := by
  have range := toNat_of_isPlain plain
  simp [isBlank]
  omega

theorem Word.notMem (w : Word) {c : Char} (other : isPlain c = false) : c ∉ w.chars := by
  intro member
  rw [w.plain c member] at other
  contradiction

theorem Word.not_blank (w : Word) : ∀ c ∈ w.chars, isBlank c = false := fun c member =>
  isBlank_of_isPlain (w.plain c member)

theorem Gap.isBlank (g : Gap) : ∀ c ∈ g.chars, isBlank c = true := by
  intro c member
  rcases g.blank c member with rfl | rfl | rfl <;> decide

theorem Gap.notMem (g : Gap) {c : Char} (other : Text.isBlank c = false) : c ∉ g.chars := by
  intro member
  rw [g.isBlank c member] at other
  contradiction

theorem Word.head_not_blank (w : Word) (rest : List Char) : ∀ c ∈ (w.chars ++ rest).head?, Text.isBlank c = false := by
  obtain ⟨d, ds, equal⟩ := List.exists_cons_of_ne_nil w.nonempty
  intro c first
  rw [equal] at first
  obtain rfl := Option.some.inj first
  exact w.not_blank d (equal ▸ .head ds)

theorem Word.getLast_not_blank (w : Word) (front : List Char) :
    ∀ c ∈ (front ++ w.chars).getLast?, Text.isBlank c = false := by
  intro c last
  rw [List.getLast?_append_of_ne_nil _ w.nonempty] at last
  exact w.not_blank c (List.mem_of_getLast? last)

theorem beforeAlias_append {cs rest : List Char} (solid : ∀ c ∈ cs, isBlank c = false) :
    beforeAlias (cs ++ rest) = cs ++ beforeAlias rest := by
  induction cs with
  | nil => rfl
  | cons c cs ih =>
    obtain ⟨here, later⟩ := List.forall_mem_cons.mp solid
    simp [beforeAlias, here, ih later]

theorem beforeAlias_chars (a : Alias) : beforeAlias a.chars = [] := by
  obtain ⟨c, gap, equal⟩ := List.exists_cons_of_ne_nil a.before_nonempty
  have blank : isBlank c = true := a.before.isBlank c (equal ▸ .head gap)
  have follows : aliasFollows a.chars = true := by
    obtain ⟨d, rest, after⟩ := List.exists_cons_of_ne_nil a.after_nonempty
    have blankAfter : isBlank d = true := a.after.isBlank d (after ▸ .head rest)
    have word : ("as".toList ++ (a.after.chars ++ a.name.chars)).dropWhile isBlank =
        "as".toList ++ (a.after.chars ++ a.name.chars) := List.dropWhile_cons_of_neg (by decide)
    have rest : after? ['a', 's'] ("as".toList ++ (a.after.chars ++ a.name.chars)) =
        some (a.after.chars ++ a.name.chars) := after?_eq_some_iff.mpr rfl
    rw [aliasFollows, Alias.chars, List.dropWhile_append_of_pos a.before.isBlank, word, rest, after]
    exact blankAfter
  rw [Alias.chars, equal, List.cons_append] at follows ⊢
  rw [beforeAlias, blank, follows]
  rfl

theorem withoutType_of_solid {cs : List Char} (solid : ∀ c ∈ cs, isBlank c = false) : withoutType cs = cs := by
  have fails : after? "type ".toList cs = none := by
    rw [Option.eq_none_iff_forall_ne_some]
    intro rest found
    have blank : ' ' ∈ cs := by simp [after?_eq_some_iff.mp found]
    exact absurd (solid _ blank) (by decide)
  rw [withoutType, fails]
  rfl

/-- An item is read as its name, whatever blanks there are around it and whatever its alias. -/
theorem itemName?_of_core {before core after name : List Char} (blankBefore : ∀ c ∈ before, isBlank c = true)
    (blankAfter : ∀ c ∈ after, isBlank c = true) (uncommented : '#' ∉ before ++ (core ++ after))
    (first : ∀ c ∈ core.head?, isBlank c = false) (last : ∀ c ∈ core.getLast?, isBlank c = false)
    (renamed : beforeAlias core = name) (nonempty : name ≠ []) (solid : ∀ c ∈ name, isBlank c = false) :
    itemName? (before ++ (core ++ after)) = some (.ofList name) := by
  have coreNonempty : core ≠ [] := by
    rintro rfl
    exact nonempty renamed.symm
  have trimmed : trimChars (before ++ (core ++ after)) = core :=
    trimWhile_append coreNonempty blankBefore blankAfter first last
  have whole : trimChars name = name := by
    apply trimWhile_eq_self
    · exact fun c head => solid c (List.mem_of_mem_head? head)
    · exact fun c last => solid c (List.mem_of_getLast? last)
  rw [itemName?, cutFirst_of_notMem uncommented, trimmed, renamed, whole, withoutType_of_solid solid]
  simp [nonempty]

namespace Item

theorem core_ne_nil (i : Item) : i.core ≠ [] := List.append_ne_nil_of_left_ne_nil i.name.nonempty _

theorem core_head (i : Item) : ∀ c ∈ i.core.head?, isBlank c = false := i.name.head_not_blank _

theorem core_getLast (i : Item) : ∀ c ∈ i.core.getLast?, isBlank c = false := by
  unfold core
  cases i.alias? with
  | none => simpa using i.name.getLast_not_blank []
  | some a =>
    have front : i.name.chars ++ a.chars =
        i.name.chars ++ a.before.chars ++ "as".toList ++ a.after.chars ++ a.name.chars := by
      simp only [Alias.chars, List.append_assoc]
    rw [Option.map_some, Option.getD_some, front]
    exact a.name.getLast_not_blank _

theorem notMem_chars (i : Item) {c : Char} (notPlain : isPlain c = false) (notBlank : isBlank c = false) :
    c ∉ i.chars := by
  have apart : c ∉ "as".toList := by
    intro member
    rcases List.mem_cons.mp member with rfl | member
    · contradiction
    · obtain rfl := List.mem_singleton.mp member
      contradiction
  have aliasApart : c ∉ (i.alias?.map Alias.chars).getD [] := by
    cases i.alias? with
    | none => exact List.not_mem_nil
    | some a =>
      simp only [Option.map_some, Option.getD_some, Alias.chars, List.mem_append, not_or]
      exact ⟨a.before.notMem notBlank, apart, a.after.notMem notBlank, a.name.notMem notPlain⟩
  simp only [chars, core, List.mem_append, not_or]
  exact ⟨i.before.notMem notBlank, ⟨i.name.notMem notPlain, aliasApart⟩, i.after.notMem notBlank⟩

theorem beforeAlias_core (i : Item) : beforeAlias i.core = i.name.chars := by
  rw [core, beforeAlias_append i.name.not_blank]
  cases i.alias? with
  | none => simp [beforeAlias]
  | some a => simp [beforeAlias_chars]

theorem itemName?_chars (i : Item) : itemName? i.chars = some i.name.text :=
  itemName?_of_core i.before.isBlank i.after.isBlank (i.notMem_chars (by decide) (by decide)) i.core_head i.core_getLast
    i.beforeAlias_core i.name.nonempty i.name.not_blank

end Item

theorem itemName?_blank {cs : List Char} (blank : ∀ c ∈ cs, isBlank c = true) : itemName? cs = none := by
  have apart : '#' ∉ cs := fun member => absurd (blank _ member) (by decide)
  rw [itemName?, cutFirst_of_notMem apart, trimChars_blank blank]
  rfl

namespace NameList

theorem notMem_parts (l : NameList) {c : Char} (notPlain : isPlain c = false) (notBlank : isBlank c = false)
    {part : List Char} (member : part ∈ l.parts) : c ∉ part := by
  rcases List.mem_append.mp member with member | member
  · obtain ⟨i, -, rfl⟩ := List.mem_map.mp member
    exact i.notMem_chars notPlain notBlank
  · obtain ⟨g, -, rfl⟩ := List.mem_map.mp member
    exact g.notMem notBlank

/-- Besides words and blanks a list has commas only. -/
theorem notMem_chars (l : NameList) {c : Char} (notPlain : isPlain c = false) (notBlank : isBlank c = false)
    (notComma : c ≠ ',') : c ∉ l.chars := by
  apply notMem_intercalate (by simpa using notComma)
  intro part member
  exact l.notMem_parts notPlain notBlank member

/-- The names of a list are read whatever its aliases and its layout are. -/
theorem listNames_chars (l : NameList) : listNames l.chars = l.names := by
  have pieces : (l.chars.splitOn ',').filterMap itemName? = l.parts.filterMap itemName? := by
    by_cases empty : l.parts = []
    · rw [chars, empty]
      rfl
    · rw [chars, List.splitOn_intercalate ',' (fun part member => l.notMem_parts (by decide) (by decide) member) empty]
  have trailing : (l.last.toList.map Gap.chars).filterMap itemName? = [] := by
    cases l.last with
    | none => rfl
    | some g => simp [itemName?_blank g.isBlank]
  have each : l.items.filterMap (itemName? ∘ Item.chars) = l.items.filterMap (some ∘ (·.name.text)) := by
    apply List.filterMap_congr
    intro i _
    exact i.itemName?_chars
  rw [listNames, pieces, parts, List.filterMap_append, trailing, List.append_nil, List.filterMap_map, each,
    List.filterMap_eq_map, names]

theorem exists_of_mem_parts_inLine {first : Listed} {others : List Listed} {part : List Char}
    (member : part ∈ (inLine first others).parts) :
    ∃ (before : Gap) (l : Listed), (before = .empty ∨ before = .space) ∧ part = (l.item before).chars := by
  simp only [parts, inLine, List.map_cons, List.map_map, Option.toList_none, List.map_nil, List.append_nil,
    List.mem_cons, List.mem_map] at member
  rcases member with rfl | ⟨l, -, rfl⟩
  · exact ⟨.empty, first, .inl rfl, rfl⟩
  · exact ⟨.space, l, .inr rfl, rfl⟩

theorem newline_notMem_item {before : Gap} (oneLine : '\n' ∉ before.chars) (l : Listed) :
    '\n' ∉ (l.item before).chars := by
  have name : '\n' ∉ l.name.chars := l.name.notMem rfl
  cases found : l.alias? with
  | none => simp [Listed.item, Item.chars, Item.core, Gap.empty, found, oneLine, name]
  | some a =>
    have renamed : '\n' ∉ a.chars := a.notMem rfl
    simp [Listed.item, Item.chars, Item.core, Alias.chars, Gap.empty, Gap.space, found, oneLine, name, renamed]

theorem newline_notMem_inLine (first : Listed) (others : List Listed) : '\n' ∉ (inLine first others).chars := by
  apply notMem_intercalate (by decide)
  intro part member
  obtain ⟨before, l, blank, rfl⟩ := exists_of_mem_parts_inLine member
  apply newline_notMem_item
  rcases blank with rfl | rfl <;> decide

theorem inLine_eq_append (first : Listed) (others : List Listed) :
    ∃ rest, (inLine first others).chars = first.name.chars ++ rest := by
  have item : (first.item .empty).chars = first.name.chars ++ ((first.item .empty).alias?.map Alias.chars).getD [] := by
    simp [Item.chars, Item.core, Listed.item, Gap.empty]
  cases others with
  | nil => exact ⟨_, by simpa [chars, parts, inLine, List.intercalate] using item⟩
  | cons next others =>
    simp only [chars, parts, inLine, List.map_cons, List.cons_append, List.intercalate_cons_cons, item,
      List.append_assoc]
    exact ⟨_, rfl⟩

theorem intercalate_ne_nil (sep : List Char) {part : List Char} (nonempty : part ≠ []) (parts : List (List Char)) :
    sep.intercalate (part :: parts) ≠ [] := by
  cases parts with
  | nil => simpa [List.intercalate] using nonempty
  | cons next parts =>
    rw [List.intercalate_cons_cons]
    exact List.append_ne_nil_of_left_ne_nil (List.append_ne_nil_of_left_ne_nil nonempty _) _

theorem getLast_intercalate {p : Char → Prop} {sep : List Char} {parts : List (List Char)}
    (each : ∀ part ∈ parts, part ≠ [] ∧ ∀ c ∈ part.getLast?, p c) : ∀ c ∈ (sep.intercalate parts).getLast?, p c := by
  induction parts with
  | nil => simp [List.intercalate]
  | cons part parts ih =>
    obtain ⟨⟨-, here⟩, later⟩ := List.forall_mem_cons.mp each
    cases parts with
    | nil => simpa [List.intercalate] using here
    | cons next parts =>
      have nonempty := intercalate_ne_nil sep (later next (.head parts)).1 parts
      rw [List.intercalate_cons_cons, List.getLast?_append_of_ne_nil _ nonempty]
      exact ih later

theorem getLast_inLine (first : Listed) (others : List Listed) :
    ∀ c ∈ (inLine first others).chars.getLast?, isBlank c = false := by
  have each (before : Gap) (l : Listed) :
      (l.item before).chars ≠ [] ∧ ∀ c ∈ (l.item before).chars.getLast?, isBlank c = false := by
    have text : (l.item before).chars = before.chars ++ (l.item before).core := by
      simp [Item.chars, Listed.item, Gap.empty]
    have nonempty := (l.item before).core_ne_nil
    rw [text, List.getLast?_append_of_ne_nil _ nonempty]
    exact ⟨List.append_ne_nil_of_right_ne_nil _ nonempty, (l.item before).core_getLast⟩
  apply getLast_intercalate
  intro part member
  obtain ⟨before, l, -, rfl⟩ := exists_of_mem_parts_inLine member
  exact each before l

theorem head_inLine (first : Listed) (others : List Listed) :
    ∃ c rest, (inLine first others).chars = c :: rest ∧ isPlain c = true := by
  obtain ⟨rest, text⟩ := inLine_eq_append first others
  obtain ⟨c, cs, equal⟩ := List.exists_cons_of_ne_nil first.name.nonempty
  rw [text, equal]
  exact ⟨c, cs ++ rest, rfl, first.name.plain c (equal ▸ .head cs)⟩

/-- There are no blanks around a list on one line. -/
theorem trimChars_inLine (first : Listed) (others : List Listed) :
    trimChars (inLine first others).chars = (inLine first others).chars := by
  obtain ⟨c, rest, text, plain⟩ := head_inLine first others
  apply trimWhile_eq_self _ (getLast_inLine first others)
  intro d head
  rw [text] at head
  obtain rfl := Option.some.inj head
  exact isBlank_of_isPlain plain

end NameList
end ChangeLens.Import
