import ChangeLens.Git.Patch
import ChangeLens.Proofs.Keyed
import Mathlib.Data.List.Infix

/-! Patches as they are written: sections of files, each with a title, further lines of its header and hunks.
What the lines of a hunk hold is arbitrary, so they may look like titles or headers themselves. Reading a
written patch gives the parts of its files back. -/
namespace ChangeLens.Patch

open Text

abbrev Line := { cs : List Char // '\n' ∉ cs }

structure Numeral where
  digits : List Char
  nonempty : digits ≠ []
  areDigits : ∀ d ∈ digits, isDigit d = true

def Numeral.value (n : Numeral) : Nat := digitsValue n.digits

inductive BodyLine where
  | context (text : Line)
  | added (text : Line)
  | removed (text : Line)
  /-- The note that a file ends without a line feed. -/
  | note (text : Line)

namespace BodyLine

def onNewSide : BodyLine → Bool
  | context _ | added _ => true
  | removed _ | note _ => false

def line : BodyLine → List Char
  | context text => ' ' :: text.val
  | added text => '+' :: text.val
  | removed text => '-' :: text.val
  | note text => '\\' :: text.val

end BodyLine

/-- The numbers of one side, of which the second may be left out. -/
def writtenRange (start : Numeral) : Option Numeral → List Char
  | none => start.digits
  | some count => start.digits ++ ',' :: count.digits

structure Hunk where
  oldStart : Numeral
  oldCount : Option Numeral
  newStart : Numeral
  newCount : Option Numeral
  /-- What follows the second pair of signs. -/
  heading : Line
  body : List BodyLine
  /-- The lines of a file are numbered from one. -/
  starts : (∃ l ∈ body, l.onNewSide = true) → 1 ≤ newStart.value

namespace Hunk

def header (h : Hunk) : List Char :=
  "@@ -".toList ++ (writtenRange h.oldStart h.oldCount ++ ([' ', '+'] ++
    (writtenRange h.newStart h.newCount ++ ([' ', '@', '@'] ++ h.heading.val))))

def lines (h : Hunk) : List (List Char) := h.header :: h.body.map BodyLine.line

end Hunk

structure FileSection where
  old : Line
  new : Line
  old_nonempty : old.val ≠ []
  new_nonempty : new.val ≠ []
  /-- The lines between the title and the first hunk. -/
  extended : List Line
  unmarked : ∀ l ∈ extended, ¬['@', '@'] <+: l.val ∧ ¬sectionMark <+: l.val
  hunks : List Hunk

namespace FileSection

def path (s : FileSection) : String := .ofList s.new.val

def title (s : FileSection) : List Char := ['a', '/'] ++ (s.old.val ++ ([' ', 'b', '/'] ++ s.new.val))

def hunkLines (s : FileSection) : List (List Char) := s.hunks.flatMap Hunk.lines

def body (s : FileSection) : List (List Char) := s.extended.map (·.val) ++ s.hunkLines

def lines (s : FileSection) : List (List Char) := (sectionMark ++ s.title) :: s.body

end FileSection

/-- The empty line that stands last in a text that ends in a line feed. -/
def lastLine (ended : Bool) : List (List Char) := if ended then [[]] else []

/-- A patch of some sections. It may leave out the line feed at its end. -/
def written (ss : List FileSection) (ended : Bool) : String :=
  .ofList (['\n'].intercalate (ss.flatMap FileSection.lines ++ lastLine ended))

theorem sectionMark_eq : sectionMark = ['d', 'i', 'f', 'f', ' ', '-', '-', 'g', 'i', 't', ' '] := by cbv

theorem after?_eq_none_iff {start cs : List Char} : after? start cs = none ↔ ¬start <+: cs := by
  rw [Option.eq_none_iff_forall_not_mem]
  constructor
  · rintro fails ⟨rest, rfl⟩
    exact fails rest (after?_eq_some_iff.mpr rfl)
  · intro fails rest found
    exact fails ⟨rest, (after?_eq_some_iff.mp found).symm⟩

theorem isNone_after? (start cs : List Char) : (after? start cs).isNone = !start.isPrefixOf cs := by
  rw [Bool.eq_iff_iff, Option.isNone_iff_eq_none, after?_eq_none_iff, Bool.not_eq_true', ← Bool.not_eq_true,
    List.isPrefixOf_iff_prefix]

theorem after?_append (start rest : List Char) : after? start (start ++ rest) = some rest :=
  after?_eq_some_iff.mpr rfl

theorem Line.newline_notMem (l : Line) : '\n' ∉ l.val := l.property

theorem Numeral.newline_notMem (n : Numeral) : '\n' ∉ n.digits := fun member =>
  absurd (n.areDigits _ member) (by decide)

theorem newline_notMem_writtenRange (start : Numeral) (count : Option Numeral) :
    '\n' ∉ writtenRange start count := by
  cases count with
  | none => exact start.newline_notMem
  | some count => simp [writtenRange, start.newline_notMem, count.newline_notMem]

theorem BodyLine.newline_notMem (l : BodyLine) : '\n' ∉ l.line := by
  cases l <;> simp [line, Line.newline_notMem]

theorem Hunk.newline_notMem {h : Hunk} {l : List Char} (member : l ∈ h.lines) : '\n' ∉ l := by
  rcases List.mem_cons.mp member with rfl | member
  · simp [header, newline_notMem_writtenRange, h.heading.newline_notMem]
  · obtain ⟨b, -, rfl⟩ := List.mem_map.mp member
    exact b.newline_notMem

namespace FileSection

theorem newline_notMem_body {s : FileSection} {l : List Char} (member : l ∈ s.body) : '\n' ∉ l := by
  rcases List.mem_append.mp member with member | member
  · obtain ⟨e, -, rfl⟩ := List.mem_map.mp member
    exact e.newline_notMem
  · obtain ⟨h, -, member⟩ := List.mem_flatMap.mp member
    exact h.newline_notMem member

theorem newline_notMem_title (s : FileSection) : '\n' ∉ s.title := by
  simp [title, s.old.newline_notMem, s.new.newline_notMem]

theorem newline_notMem {s : FileSection} {l : List Char} (member : l ∈ s.lines) : '\n' ∉ l := by
  rcases List.mem_cons.mp member with rfl | member
  · simp [sectionMark_eq, s.newline_notMem_title]
  · exact newline_notMem_body member

/-- Only the title of a section begins with the mark: every other line of a hunk has its own sign in front. -/
theorem not_marked_of_mem_body {s : FileSection} {l : List Char} (member : l ∈ s.body) :
    after? sectionMark l = none := by
  rcases List.mem_append.mp member with member | member
  · obtain ⟨e, listed, rfl⟩ := List.mem_map.mp member
    exact after?_eq_none_iff.mpr (s.unmarked e listed).2
  · obtain ⟨h, -, member⟩ := List.mem_flatMap.mp member
    rcases List.mem_cons.mp member with rfl | member
    · simp [Hunk.header, sectionMark_eq, after?]
    · obtain ⟨b, -, rfl⟩ := List.mem_map.mp member
      cases b <;> simp [BodyLine.line, sectionMark_eq, after?]

end FileSection
end ChangeLens.Patch
