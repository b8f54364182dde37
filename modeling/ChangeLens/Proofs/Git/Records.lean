import ChangeLens.Git.Listing
import ChangeLens.Proofs.Text.Lines

/-! The listing of a change as git writes it, one record on each line and its fields divided by tabs. Every record is read
as what it says, but the listing is trimmed first, and so the last record loses the blanks at the end of its path. If
the path is made of blanks, the record itself is lost or taken for another one. -/
namespace ChangeLens.Listed

open Text

abbrev Field := { cs : List Char // '\t' ∉ cs ∧ '\n' ∉ cs }

/-- A path that git writes as it is. Blanks may stand at its ends. -/
structure PlainPath where
  field : Field
  nonempty : field.val ≠ []

namespace PlainPath

def chars (p : PlainPath) : List Char := p.field.val

def text (p : PlainPath) : String := .ofList p.chars

/-- No blank stands at the end of the path. -/
def Solid (p : PlainPath) : Prop := ∀ c ∈ p.chars.getLast?, isBlank c = false

instance (p : PlainPath) : Decidable p.Solid := inferInstanceAs (Decidable (∀ c ∈ p.chars.getLast?, isBlank c = false))

/-- The path without the blanks at its end, if anything else is in it. -/
def cut? (p : PlainPath) : Option String := if cutEnd p.chars = [] then none else some (.ofList (cutEnd p.chars))

theorem cut?_eq_none_iff {p : PlainPath} : p.cut? = none ↔ cutEnd p.chars = [] := by
  simp [cut?]

theorem cut?_eq_some_iff {p : PlainPath} {s : String} : p.cut? = some s ↔ cutEnd p.chars ≠ [] ∧ .ofList (cutEnd p.chars) = s := by
  simp [cut?]

theorem cut?_eq_text_iff {p : PlainPath} : p.cut? = some p.text ↔ p.Solid := by
  rw [cut?_eq_some_iff, text, String.ofList_inj, Solid, ← cutEnd_eq_self_iff, and_iff_right_iff_imp]
  intro same
  rw [same]
  exact p.nonempty

/-- A path that is made of blanks is not left over of another one. -/
theorem cut?_ne_text {p q : PlainPath} (blank : q.cut? = none) : p.cut? ≠ some q.text := by
  intro left
  obtain ⟨-, same⟩ := cut?_eq_some_iff.mp left
  have same : cutEnd p.chars = q.chars := String.ofList_inj.mp same
  have cut : cutEnd q.chars = q.chars := by rw [← same, cutEnd_cutEnd]
  exact q.nonempty (cut.symm.trans (cut?_eq_none_iff.mp blank))

end PlainPath

inductive Alteration where
  | content
  | type
  | unmerged

def Alteration.letter : Alteration → Char
  | content => 'M'
  | type => 'T'
  | unmerged => 'U'

/-- A record of a listing. How alike two files are is told by a score. -/
inductive Record where
  | added (path : PlainPath)
  | deleted (path : PlainPath)
  | altered (how : Alteration) (path : PlainPath)
  | renamed (score : Field) (old new : PlainPath)
  | copied (score : Field) (source target : PlainPath)

namespace Record

def letter : Record → Char
  | added _ => 'A'
  | deleted _ => 'D'
  | altered how _ => how.letter
  | renamed .. => 'R'
  | copied .. => 'C'

def score : Record → List Char
  | added _ | deleted _ | altered .. => []
  | renamed score _ _ | copied score _ _ => score.val

/-- The path that stands in front of the last one. -/
def former? : Record → Option PlainPath
  | added _ | deleted _ | altered .. => none
  | renamed _ old _ => some old
  | copied _ source _ => some source

/-- The path that stands last in the line. -/
def path : Record → PlainPath
  | added path | deleted path | altered _ path => path
  | renamed _ _ new => new
  | copied _ _ target => target

def fields (r : Record) : List (List Char) :=
  (r.letter :: r.score) :: (r.former?.toList ++ [r.path]).map PlainPath.chars

def line (r : Record) : List Char := ['\t'].intercalate r.fields

def listed : Record → Listed
  | added path => ⟨path.text, none, .added⟩
  | deleted path => ⟨path.text, none, .deleted⟩
  | altered _ path => ⟨path.text, none, .modified⟩
  | renamed _ old new => ⟨new.text, some old.text, .renamed⟩
  | copied _ _ target => ⟨target.text, none, .modified⟩

/-- What is read of a record on the last line. -/
def lastRead : Record → Except MissingPath (Option Listed)
  | added path =>
    match path.cut? with
    | some path => .ok (some ⟨path, none, .added⟩)
    | none => .error ⟨"A"⟩
  | deleted path =>
    match path.cut? with
    | some path => .ok (some ⟨path, none, .deleted⟩)
    | none => .error ⟨"D"⟩
  | altered _ path => .ok (path.cut?.map (⟨·, none, .modified⟩))
  | renamed _ old new =>
    match new.cut? with
    | some new => .ok (some ⟨new, some old.text, .renamed⟩)
    | none => .ok (old.cut?.map (⟨·, none, .modified⟩))
  | copied _ source target => .ok ((target.cut?.or source.cut?).map (⟨·, none, .modified⟩))

def readings : List Record → Except MissingPath (List Listed)
  | [] => .ok []
  | [last] => last.lastRead.map Option.toList
  | r :: s :: rest => (readings (s :: rest)).map (r.listed :: ·)

theorem isBlank_letter (r : Record) : isBlank r.letter = false := by
  cases r with
  | altered how => cases how <;> rfl
  | _ => rfl

theorem fields_plain (r : Record) : ∀ f ∈ r.fields, '\t' ∉ f ∧ '\n' ∉ f := by
  refine List.forall_mem_cons.mpr ⟨?_, ?_⟩
  · have score : '\t' ∉ r.score ∧ '\n' ∉ r.score := by
      cases r with
      | renamed score | copied score => exact score.property
      | _ => simp [score]
    have tab : '\t' ≠ r.letter := fun same => absurd r.isBlank_letter (same ▸ by decide)
    have newline : '\n' ≠ r.letter := fun same => absurd r.isBlank_letter (same ▸ by decide)
    simp [tab, newline, score]
  · intro f member
    obtain ⟨path, -, rfl⟩ := List.mem_map.mp member
    exact path.field.property

theorem exists_line (r : Record) : ∃ rest, r.line = r.letter :: rest := by
  rw [line, fields]
  exact ⟨_, List.intercalate_cons_cons_left ..⟩

theorem flush_line (r : Record) : Flush r.line := by
  refine ⟨?_, notMem_intercalate (by decide) fun f member => (r.fields_plain f member).2⟩
  obtain ⟨rest, equal⟩ := r.exists_line
  exact ⟨r.letter, by simp [equal], r.isBlank_letter⟩

theorem cutEnd_line (r : Record) : cutEnd r.line = ['\t'].intercalate (cutFields r.fields) :=
  cutEnd_intercalate rfl r.fields

/-- A line is read by its letter and its fields. -/
theorem ofLine_line (r : Record) : ofLine (.ofList r.line) = .ok (some r.listed) := by
  have split : splitAt '\t' (.ofList r.line) = r.fields.map .ofList :=
    splitAt_intercalate (fun f member => (r.fields_plain f member).1) (List.cons_ne_nil _ _)
  have head : (String.ofList r.line).toList.head? = some r.letter := by
    obtain ⟨rest, equal⟩ := r.exists_line
    simp [equal]
  rw [ofLine, split, head]
  cases r with
  | altered how => cases how <;> rfl
  | _ => rfl

theorem cutFields_of_former_none {r : Record} (alone : r.former? = none) :
    cutFields r.fields =
      if cutEnd r.path.chars = [] then [cutEnd (r.letter :: r.score)] else [r.letter :: r.score, cutEnd r.path.chars] := by
  simp [fields, alone, cutFields]

theorem cutFields_of_former_some {r : Record} {former : PlainPath} (second : r.former? = some former) :
    cutFields r.fields =
      if cutEnd r.path.chars = [] then
        if cutEnd former.chars = [] then [cutEnd (r.letter :: r.score)] else [r.letter :: r.score, cutEnd former.chars]
      else [r.letter :: r.score, former.chars, cutEnd r.path.chars] := by
  by_cases blank : cutEnd r.path.chars = [] <;> simp [fields, second, cutFields, blank]

/-- What is read of the last line, once the blanks at its end are gone. -/
theorem ofLine_cutEnd (r : Record) : ofLine (.ofList (cutEnd r.line)) = r.lastRead := by
  have split : splitAt '\t' (.ofList (cutEnd r.line)) = (cutFields r.fields).map .ofList := by
    rw [cutEnd_line]
    exact splitAt_intercalate (notMem_of_mem_cutFields fun f member => (r.fields_plain f member).1)
      (cutFields_cons_ne_nil _ _)
  have head : (String.ofList (cutEnd r.line)).toList.head? = some r.letter := by
    obtain ⟨rest, equal⟩ := r.exists_line
    simp [equal, cutEnd_cons r.isBlank_letter]
  rw [ofLine, split, head, cutEnd_line]
  cases r with
  | added path | deleted path =>
    rw [cutFields_of_former_none rfl, lastRead, PlainPath.cut?, Record.path]
    by_cases blank : cutEnd path.chars = []
    · rw [if_pos blank, if_pos blank]
      rfl
    · rw [if_neg blank, if_neg blank]
      rfl
  | altered how path =>
    rw [cutFields_of_former_none rfl, lastRead, PlainPath.cut?, Record.path]
    by_cases blank : cutEnd path.chars = []
    · rw [if_pos blank, if_pos blank]
      cases how <;> rfl
    · rw [if_neg blank, if_neg blank]
      cases how <;> rfl
  | renamed _ former path | copied _ former path =>
    -- without the last path the one in front of it is read, unless that goes as well
    rw [cutFields_of_former_some rfl, lastRead, PlainPath.cut?, PlainPath.cut?, Record.path]
    by_cases blank : cutEnd path.chars = []
    · by_cases former_blank : cutEnd former.chars = []
      · rw [if_pos blank, if_pos blank, if_pos former_blank, if_pos former_blank, cutEnd_cons (isBlank_letter _)]
        rfl
      · rw [if_pos blank, if_pos blank, if_neg former_blank, if_neg former_blank]
        rfl
    · rw [if_neg blank, if_neg blank]
      rfl

theorem readings_append (front : List Record) (last : Record) :
    readings (front ++ [last]) = last.lastRead.map (front.map listed ++ ·.toList) := by
  induction front with
  | nil => rfl
  | cons r rest ih =>
    obtain ⟨s, more, equal⟩ := List.exists_cons_of_ne_nil (List.append_ne_nil_of_right_ne_nil rest (List.cons_ne_nil last []))
    rw [List.cons_append, equal, readings, ← equal, ih]
    cases last.lastRead <;> rfl

theorem ofLines_append (front : List Record) {last : List Char} (flush : Flush last) :
    ofLines ((front.map line ++ [last]).map .ofList) =
      (ofLine (.ofList last)).map (front.map listed ++ ·.toList) := by
  induction front with
  | nil =>
    rw [List.map_nil, List.nil_append, List.map_singleton, ofLines, flush.not_allBlank]
    cases ofLine (.ofList last) with
    | error missing => rfl
    | ok entry => exact congrArg Except.ok (List.append_nil _)
  | cons r rest ih =>
    rw [List.map_cons, List.cons_append, List.map_cons, ofLines, ih, ofLine_line, r.flush_line.not_allBlank]
    cases ofLine (.ofList last) <;> rfl

theorem ofText_eq_readings (records : List Record) (ended : Bool) :
    ofText (unlines (records.map line) ended) = readings records := by
  cases records using List.reverseRec with
  | nil =>
    rw [ofText, List.map_nil, trim_unlines_nil]
    rfl
  | append_singleton front last =>
    have flush : ∀ l ∈ (front ++ [last]).map line, Flush l := by
      rintro _ member
      obtain ⟨r, -, rfl⟩ := List.mem_map.mp member
      exact r.flush_line
    rw [List.map_append, List.map_singleton] at flush ⊢
    rw [ofText, lines_trim_unlines flush, ofLines_append front last.flush_line.cutEnd, ofLine_cutEnd, readings_append]

theorem lastRead_eq_listed_iff {r : Record} : r.lastRead = .ok (some r.listed) ↔ r.path.Solid := by
  rw [← PlainPath.cut?_eq_text_iff]
  cases r with
  | added path | deleted path =>
    rw [lastRead, Record.path]
    cases path.cut? <;> simp [listed]
  | altered _ path =>
    rw [lastRead, Record.path]
    cases path.cut? <;> simp [listed]
  | renamed _ former path =>
    rw [lastRead, Record.path]
    cases path.cut? <;> simp [listed]
  | copied _ former path =>
    rw [lastRead, Record.path]
    cases blank : path.cut? with
    | none => simpa [listed] using PlainPath.cut?_ne_text (p := former) blank
    | some left => simp [listed]

theorem readings_eq_listed_iff {records : List Record} :
    readings records = .ok (records.map listed) ↔ ∀ last ∈ records.getLast?, last.path.Solid := by
  cases records using List.reverseRec with
  | nil => simp [readings]
  | append_singleton front last =>
    rw [readings_append, List.map_append, List.map_singleton, List.getLast?_concat]
    simp only [Option.mem_some_iff, forall_eq']
    rw [← lastRead_eq_listed_iff]
    cases last.lastRead with
    | error missing => simp [Except.map]
    | ok entry => cases entry <;> simp [Except.map]

/-- A listing is read record by record. All files are listed as they are just if no blank stands at the end of the last
line; else the others are, and of the last one what is left is read. -/
theorem ofText_records (records : List Record) (ended : Bool) :
    let read := ofText (unlines (records.map line) ended)
    read = readings records ∧
      (read = .ok (records.map listed) ↔ ∀ last ∈ records.getLast?, last.path.Solid) := by
  have read := ofText_eq_readings records ended
  exact ⟨read, by rw [read, readings_eq_listed_iff]⟩

def notes : PlainPath := ⟨⟨['n', 'o', 't', 'e', 's', ' '], by decide⟩, by decide⟩

def draft : PlainPath := ⟨⟨['d', 'r', 'a', 'f', 't', ' '], by decide⟩, by decide⟩

/-- Both paths end in a blank. The one on the last line loses it. -/
theorem last_blank_lost :
    let records := [deleted notes, added draft]
    unlines (records.map line) true = "D\tnotes \nA\tdraft \n" ∧
      ofText "D\tnotes \nA\tdraft \n" = .ok [⟨"notes ", none, .deleted⟩, ⟨"draft", none, .added⟩] ∧
      records.map listed = [⟨"notes ", none, .deleted⟩, ⟨"draft ", none, .added⟩] ∧
      ofText (unlines (records.map line) true) ≠ .ok (records.map listed) := by
  refine ⟨by rfl, by rfl, by rfl, ?_⟩
  decide

end Record
end ChangeLens.Listed
