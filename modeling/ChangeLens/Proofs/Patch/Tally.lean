import ChangeLens.Proofs.Patch.NewSide
import ChangeLens.Proofs.Patch.Titles
import Mathlib.Data.List.Dedup
import Mathlib.Data.List.Count

/-! The counts of added and removed lines. A line is left out of them if its content begins with its own sign twice:
with the sign in front it then begins as the lines of a header do that name the files. The walk over the new side makes
no such exception, so the two go apart on those lines and on no others. -/
namespace ChangeLens.Patch

open Text

namespace BodyLine

def isAdded : BodyLine → Bool
  | added _ => true
  | _ => false

def isRemoved : BodyLine → Bool
  | removed _ => true
  | _ => false

/-- Whether the line begins as one of a header that names a file. -/
def namesFile : BodyLine → Bool
  | added text => ['+', '+'].isPrefixOf text.val
  | removed text => ['-', '-'].isPrefixOf text.val
  | _ => false

theorem namesFile_cases {l : BodyLine} (names : l.namesFile = true) : l.isAdded = true ∨ l.isRemoved = true := by
  cases l with
  | added => exact .inl rfl
  | removed => exact .inr rfl
  | context | note => contradiction

theorem isAddition_line (l : BodyLine) : isAddition l.line = (l.isAdded && !l.namesFile) := by
  cases l <;> simp [isAddition, isNone_after?, line, isAdded, namesFile, after?]

theorem isDeletion_line (l : BodyLine) : isDeletion l.line = (l.isRemoved && !l.namesFile) := by
  cases l <;> simp [isDeletion, isNone_after?, line, isRemoved, namesFile, after?]

end BodyLine

theorem Hunk.not_counted_header (h : Hunk) : isAddition h.header = false ∧ isDeletion h.header = false := by
  simp [isAddition, isDeletion, header, after?]

namespace FileSection

def bodyLines (s : FileSection) : List BodyLine := s.hunks.flatMap (·.body)

variable {counted : List Char → Bool} {counts : BodyLine → Bool}

theorem countP_hunkLines (s : FileSection) (headers : ∀ h : Hunk, counted h.header = false)
    (lines : ∀ l : BodyLine, counted l.line = counts l) : s.hunkLines.countP counted = s.bodyLines.countP counts := by
  rw [hunkLines, bodyLines]
  induction s.hunks with
  | nil => rfl
  | cons h hs ih =>
    rw [List.flatMap_cons, List.flatMap_cons, List.countP_append, List.countP_append, ih, Hunk.lines,
      List.countP_cons_of_neg (by simp [headers]), List.countP_map]
    simp only [Function.comp_def, lines]

theorem countP_hunkLines_inner (s : FileSection) (ended : Bool) (headers : ∀ h : Hunk, counted h.header = false)
    (lines : ∀ l : BodyLine, counted l.line = counts l) (empty : counted [] = false) :
    (Patch.hunkLines (s.inner ++ lastLine ended)).countP counted = s.bodyLines.countP counts := by
  have last : (lastLine ended).countP counted = 0 := by
    cases ended <;> simp [lastLine, empty]
  rw [hunkLines_inner]
  split
  next none => simp [bodyLines, none]
  next => rw [List.countP_append, last, Nat.add_zero, s.countP_hunkLines headers lines]

theorem additions_part (s : FileSection) (ended : Bool) :
    (s.part ended).additions = s.bodyLines.countP fun l => l.isAdded && !l.namesFile :=
  s.countP_hunkLines_inner ended (fun h => h.not_counted_header.1) BodyLine.isAddition_line rfl

theorem deletions_part (s : FileSection) (ended : Bool) :
    (s.part ended).deletions = s.bodyLines.countP fun l => l.isRemoved && !l.namesFile :=
  s.countP_hunkLines_inner ended (fun h => h.not_counted_header.2) BodyLine.isDeletion_line rfl

end FileSection

theorem length_numbers (n : Nat) (body : List BodyLine) : (numbers n body).length = body.countP BodyLine.isAdded := by
  induction body generalizing n with
  | nil => rfl
  | cons l body ih => cases l <;> simp [numbers, ih, List.countP_cons, BodyLine.isAdded]

theorem bounds_of_mem_numbers {n m : Nat} {body : List BodyLine} (member : m ∈ numbers n body) :
    n ≤ m ∧ m < n + body.countP BodyLine.onNewSide := by
  obtain ⟨i, text, found, rfl⟩ := (mem_numbers n m body).mp member
  have below := (List.getElem?_eq_some_iff.mp found).1
  rw [← List.countP_eq_length_filter] at below
  omega

theorem nodup_numbers (n : Nat) (body : List BodyLine) : (numbers n body).Nodup := by
  induction body generalizing n with
  | nil => exact .nil
  | cons l body ih =>
    cases l with
    | added text =>
      refine List.nodup_cons.mpr ⟨fun again => ?_, ih (n + 1)⟩
      have := bounds_of_mem_numbers again
      omega
    | context | removed | note => exact ih _

namespace Hunk

def stop (h : Hunk) : Nat := h.newStart.value + h.body.countP BodyLine.onNewSide

def Apart (h k : Hunk) : Prop := h.stop ≤ k.newStart.value ∨ k.stop ≤ h.newStart.value

theorem Apart.disjoint {h k : Hunk} (apart : h.Apart k) : List.Disjoint h.added k.added := by
  intro n one two
  have inOne := bounds_of_mem_numbers one
  have inTwo := bounds_of_mem_numbers two
  rcases apart with before | after
  · simp only [stop] at before
    omega
  · simp only [stop] at after
    omega

end Hunk

theorem length_sortDistinct {xs : List Nat} (distinct : xs.Nodup) : (sortDistinct (· ≤ ·) xs).length = xs.length := by
  have sorted : (sortDistinct (· ≤ ·) xs).Nodup := (pairwise_sortDistinct xs).imp fun less => Nat.ne_of_lt less
  exact ((List.perm_ext_iff_of_nodup sorted distinct).mpr fun n => mem_sortDistinct).length_eq

namespace FileSection

theorem length_added (s : FileSection) : (s.hunks.flatMap Hunk.added).length = s.bodyLines.countP BodyLine.isAdded := by
  rw [bodyLines]
  induction s.hunks with
  | nil => rfl
  | cons h hs ih =>
    rw [List.flatMap_cons, List.flatMap_cons, List.length_append, List.countP_append, ih, Hunk.added, length_numbers]

theorem nodup_added {s : FileSection} (apart : s.hunks.Pairwise Hunk.Apart) : (s.hunks.flatMap Hunk.added).Nodup :=
  List.nodup_flatMap.mpr ⟨fun _ _ => nodup_numbers .., apart.imp Hunk.Apart.disjoint⟩

end FileSection

/-- What the counts of a section leave out, and when that is nothing. The walk leaves nothing out: if no two hunks share
a line, it finds as many lines as they add. -/
structure Tallies (s : FileSection) (p : FilePatch) : Prop where
  additions : p.additions + s.bodyLines.countP (fun l => l.isAdded && l.namesFile) = s.bodyLines.countP BodyLine.isAdded
  deletions :
    p.deletions + s.bodyLines.countP (fun l => l.isRemoved && l.namesFile) = s.bodyLines.countP BodyLine.isRemoved
  exact_iff : p.additions = s.bodyLines.countP BodyLine.isAdded ∧ p.deletions = s.bodyLines.countP BodyLine.isRemoved ↔
    ∀ l ∈ s.bodyLines, l.namesFile = false
  changed : (∀ h ∈ s.hunks, h.Short) → s.hunks.Pairwise Hunk.Apart →
    ∃ ls, changedLines p.hunks = .ok ls ∧ ls.length = s.bodyLines.countP BodyLine.isAdded

theorem countP_and_not_add {α : Type} (p q : α → Bool) (xs : List α) :
    xs.countP (fun x => p x && !q x) + xs.countP (fun x => p x && q x) = xs.countP p := by
  induction xs with
  | nil => rfl
  | cons x xs ih => cases hp : p x <;> cases hq : q x <;> simp [hp, hq] <;> omega

theorem part_tallies (s : FileSection) (ended : Bool) : Tallies s (s.part ended) := by
  have additions := countP_and_not_add BodyLine.isAdded BodyLine.namesFile s.bodyLines
  have deletions := countP_and_not_add BodyLine.isRemoved BodyLine.namesFile s.bodyLines
  rw [← s.additions_part ended] at additions
  rw [← s.deletions_part ended] at deletions
  refine ⟨additions, deletions, ⟨?_, ?_⟩, ?_⟩
  · rintro ⟨allAdded, allRemoved⟩ l member
    have noneAdded : s.bodyLines.countP (fun l => l.isAdded && l.namesFile) = 0 := by omega
    have noneRemoved : s.bodyLines.countP (fun l => l.isRemoved && l.namesFile) = 0 := by omega
    refine Bool.eq_false_iff.mpr fun names => ?_
    rcases BodyLine.namesFile_cases names with added | removed
    · exact List.countP_eq_zero.mp noneAdded l member (by simp [added, names])
    · exact List.countP_eq_zero.mp noneRemoved l member (by simp [removed, names])
  · intro plain
    have noneAdded : s.bodyLines.countP (fun l => l.isAdded && l.namesFile) = 0 :=
      List.countP_eq_zero.mpr fun l member => by simp [plain l member]
    have noneRemoved : s.bodyLines.countP (fun l => l.isRemoved && l.namesFile) = 0 :=
      List.countP_eq_zero.mpr fun l member => by simp [plain l member]
    omega
  · intro short apart
    refine ⟨_, s.changedLines_part short ended, ?_⟩
    rw [length_sortDistinct (List.nodup_reverse.mpr (s.nodup_added apart)), List.length_reverse, s.length_added]

/-- The counts that a patch gives for a path are those of the last section that goes by it. -/
theorem byPath_written_tallies {before after : List FileSection} {s : FileSection}
    (last : ∀ t ∈ after, t.heard ≠ s.heard) (ended : Bool) :
    ∃ p, (byPath (written (before ++ s :: after) ended)).find? s.heard = some p ∧ Tallies s p ∧
      (s.Clear → (byPath (written (before ++ s :: after) ended)).find? s.path = some p) := by
  have found := @find?_byPath_heard before _ _ last ended
  refine ⟨_, found, part_tallies s _, fun clear => ?_⟩
  rwa [← FileSection.heard_eq_path_iff.mpr clear]

def two : Numeral where
  digits := ['2']
  nonempty := by simp
  areDigits d member := by
    rw [List.mem_singleton.mp member]
    decide

def script : FileSection where
  old := ⟨['s', '.', 's', 'q', 'l'], by decide⟩
  new := ⟨['s', '.', 's', 'q', 'l'], by decide⟩
  old_nonempty := by decide
  new_nonempty := by decide
  extended := [⟨"--- a/s.sql".toList, by simp⟩, ⟨"+++ b/s.sql".toList, by simp⟩]
  unmarked := by simp [sectionMark_eq]
  hunks := [{
    oldStart := two
    oldCount := some two
    newStart := two
    newCount := some two
    heading := ⟨[' ', 'd', 'o'], by decide⟩
    body := [.context ⟨['g', 'o'], by decide⟩, .removed ⟨['-', '-', ' ', 'x'], by decide⟩,
      .added ⟨['+', '+', 'i', ';'], by decide⟩]
    starts := fun _ => by decide }]

theorem script_clear : script.Clear := by
  have free : ¬separator <:+: ['.', 's', 'q', 'l'] := by decide
  exact free

theorem misleading_clear : misleading.Clear := by
  have free : ¬separator <:+: [' ', 'b'] := by decide
  exact free

theorem byPath_written_tallies_script :
    (∀ t ∈ [misleading], t.heard ≠ script.heard) ∧
      ∃ p, (byPath (written [script, misleading] false)).find? script.heard = some p ∧ Tallies script p := by
  have last : ∀ t ∈ [misleading], t.heard ≠ script.heard := by
    rw [List.forall_mem_singleton, FileSection.heard_eq_path_iff.mpr script_clear,
      FileSection.heard_eq_path_iff.mpr misleading_clear]
    simp [FileSection.path, script, misleading]
  obtain ⟨p, found, tallies, -⟩ := @byPath_written_tallies [] [misleading] script last false
  exact ⟨last, p, found, tallies⟩

/-- The hunk adds and removes a line, and neither is counted. -/
theorem script_lines_uncounted : script.bodyLines.countP BodyLine.isAdded = 1 ∧
    script.bodyLines.countP BodyLine.isRemoved = 1 ∧
    ∃ p, (byPath (written [script] true)).find? script.path = some p ∧ p.additions = 0 ∧ p.deletions = 0 ∧
      changedLines p.hunks = .ok [3] := by
  have found : (byPath (written ([] ++ [script]) true)).find? script.path = some (script.part true) :=
    find?_byPath_of_clear (by simp) script_clear (by simp) true
  refine ⟨by decide, by decide, _, found, ?_, ?_, ?_⟩
  · rw [FileSection.additions_part]
    decide
  · rw [FileSection.deletions_part]
    decide
  · have short : ∀ h ∈ script.hunks, h.Short := by
      have : two.digits.length ≤ maxDigits := by decide
      simpa [script, Hunk.Short] using this
    have added : script.hunks.flatMap Hunk.added = [3] := by decide
    rw [FileSection.changedLines_part short, added]
    simp [sortDistinct, consNew]

end ChangeLens.Patch
