import ChangeLens.Proofs.Git.Collect
import ChangeLens.Proofs.Patch.NewSide
import ChangeLens.Proofs.Patch.Titles

/-! Whether a collected file gets its own hunks. It does if the title of its section is clear. A title that is misread
files the hunks under a path that no file has, and the file is left with none. -/
namespace ChangeLens

namespace Patch.FileSection

def ownHunks (s : FileSection) (ended : Bool) : String := .ofList (['\n'].intercalate (s.fromFirstHeader ended))

theorem hunks_part (s : FileSection) (ended : Bool) : (s.part ended).hunks = s.ownHunks ended := by
  rw [ownHunks, ← hunkText_eq, part]

theorem ownHunks_ne_empty {s : FileSection} (nonempty : s.hunks ≠ []) (ended : Bool) : s.ownHunks ended ≠ "" := by
  obtain ⟨h, hs, equal⟩ := List.exists_cons_of_ne_nil nonempty
  rw [ownHunks, ← hunkText_eq, hunkText, if_neg nonempty]
  simp [hunkLines, equal, Hunk.lines, Hunk.header, List.intercalate_cons_cons_left]

end Patch.FileSection

namespace Git

open Patch

/-- Any change that is collected from this diff gives the file at the path these hunks. -/
def Collects (diff path hunks : String) : Prop :=
  ∀ ⦃r : Repository⦄ ⦃base : String⦄ ⦃head : Option String⦄ ⦃concurrency count : Int⦄ ⦃set : ChangeSet⦄,
    r.git ["diff", "-M", range base head] = .output diff → (collect r base head concurrency count).value = .ok set →
      ∀ f ∈ set.files, f.path = path → f.hunks = some hunks

theorem collects_of_find? (diff path : String) :
    Collects diff path ((((byPath diff).find? path).getD ⟨"", 0, 0⟩).hunks) := by
  intro r base head concurrency count set answers collected f member same
  rw [hunks_of_mem_files collected member, rawDiff_of_output collected answers, same]

variable {before after : List FileSection} {s : FileSection}

/-- A file finds its own hunks if the title of its section is clear and no later title is misread as its path. If its
title is not clear, it finds nothing, unless another title is misread as its path. -/
theorem collect_own_hunks (distinct : ((before ++ s :: after).map FileSection.path).Nodup) (ended : Bool) :
    let diff := written (before ++ s :: after) ended
    let own := s.ownHunks (ended || !after.isEmpty)
    (s.Clear ↔ s.heard = s.path) ∧
      (s.Clear → (∀ t ∈ after, ¬t.Clear → t.heard ≠ s.path) →
        (s.hunks ≠ [] → own ≠ "") ∧ ((byPath diff).find? s.path).map (·.hunks) = some own ∧
          Collects diff s.path own) ∧
      (¬s.Clear → (∀ t ∈ before ++ s :: after, ¬t.Clear → t.heard ≠ s.path) →
        (byPath diff).find? s.path = none ∧ Collects diff s.path "") := by
  intro diff own
  have collects := collects_of_find? diff s.path
  refine ⟨FileSection.heard_eq_path_iff.symm, fun clear unshadowed => ?_, fun unclear unshadowed => ?_⟩
  · have found : (byPath diff).find? s.path = some (s.part (ended || !after.isEmpty)) :=
      find?_byPath_of_clear distinct clear unshadowed ended
    rw [found, Option.getD_some, FileSection.hunks_part] at collects
    refine ⟨fun nonempty => FileSection.ownHunks_ne_empty nonempty _, ?_, collects⟩
    rw [found, Option.map_some, FileSection.hunks_part]
  · have lost : (byPath diff).find? s.path = none := find?_byPath_of_not_clear distinct unclear unshadowed ended
    rw [lost, Option.getD_none] at collects
    exact ⟨lost, collects⟩

def countUp : Hunk where
  oldStart := one
  oldCount := none
  newStart := one
  newCount := none
  heading := ⟨"".toList, by simp⟩
  body := [.removed ⟨['1'], by decide⟩, .added ⟨['2'], by decide⟩]
  starts := fun _ => by decide

/-- A file that is moved into the directory, from a path that is no cause for doubt. -/
def movedIn : FileSection where
  old := ⟨['k'], by decide⟩
  new := ⟨['x', ' ', 'b', '/', 'y'], by decide⟩
  old_nonempty := by decide
  new_nonempty := by decide
  extended := [⟨"rename from k".toList, by simp⟩, ⟨"rename to x b/y".toList, by simp⟩]
  unmarked := by simp [sectionMark_eq]
  hunks := [countUp]

def resident : FileSection where
  old := ⟨['x', ' ', 'b', '/', 'z'], by decide⟩
  new := ⟨['x', ' ', 'b', '/', 'z'], by decide⟩
  old_nonempty := by decide
  new_nonempty := by decide
  extended := [⟨"--- a/x b/z\t".toList, by simp⟩, ⟨"+++ b/x b/z\t".toList, by simp⟩]
  unmarked := by simp [sectionMark_eq]
  hunks := [countUp]

def directoryGit : Command → Reply
  | ["diff", "--name-status", "-M", "main"] => .output "R050\tk\tx b/y\nM\tx b/z\n"
  | ["diff", "-M", "main"] => .output (written [movedIn, resident] true)
  | _ => .failure 128 ""

def directoryRepository : Repository := ⟨directoryGit, fun _ => none⟩

def directoryChange : ChangeSet where
  files := [
    { path := "x b/y", status := .renamed, hunks := some "@@ -1 +1 @@\n-1\n+2\n", oldPath := some "k",
      additions := 1, deletions := 1 },
    { path := "x b/z", status := .modified }]
  rawDiff := written [movedIn, resident] true
  baseRef := "main"

set_option maxRecDepth 10000 in
theorem collect_directory : (collect directoryRepository "main" none 1 0).value = .ok directoryChange := by
  rfl

theorem movedIn_clear : movedIn.Clear := by
  have free : ¬separator <:+: ([] : List Char) := by decide
  exact free

theorem resident_not_clear : ¬resident.Clear := by
  have inside : separator <:+: [' ', 'b', '/', 'z'] := by decide
  exact fun clear => clear inside

/-- The file that was there before is heard of by what follows the separator in its own name. -/
theorem heard_resident : resident.heard = "z b/x b/z" := by
  rfl

theorem directory_distinct : ([movedIn, resident].map FileSection.path).Nodup := by
  decide

theorem collect_own_hunks_directory :
    ([movedIn, resident].map FileSection.path).Nodup ∧
      (movedIn.Clear ∧ Collects (written [movedIn, resident] true) movedIn.path (movedIn.ownHunks true)) ∧
      ¬resident.Clear ∧ Collects (written [movedIn, resident] true) resident.path "" := by
  obtain ⟨-, own, -⟩ := @collect_own_hunks [] [resident] movedIn directory_distinct true
  obtain ⟨-, -, lost⟩ := @collect_own_hunks [movedIn] [] resident directory_distinct true
  have unshadowed : ∀ t ∈ [resident], ¬t.Clear → t.heard ≠ movedIn.path := by
    rw [List.forall_mem_singleton, heard_resident]
    exact fun _ => by decide
  have misread : ∀ t ∈ [movedIn, resident], ¬t.Clear → t.heard ≠ resident.path := by
    rw [List.forall_mem_cons, List.forall_mem_singleton, heard_resident]
    exact ⟨fun unclear => absurd movedIn_clear unclear, fun _ => by decide⟩
  exact ⟨directory_distinct, ⟨movedIn_clear, (own movedIn_clear unshadowed).2.2⟩, resident_not_clear,
    (lost resident_not_clear misread).2⟩

/-- The section has a hunk, and the file with its path is left with none. -/
theorem resident_hunks_lost :
    ([movedIn, resident].map FileSection.path).Nodup ∧ resident.hunks ≠ [] ∧
      (byPath (written [movedIn, resident] true)).find? resident.path = none ∧
      (collect directoryRepository "main" none 1 0).value = .ok directoryChange ∧
      ∃ f ∈ directoryChange.files, f.path = resident.path ∧ f.hunks = some "" := by
  refine ⟨directory_distinct, by simp [resident], ?_, collect_directory, _, .tail _ (.head _), by decide, rfl⟩
  refine find?_byPath_eq_none_iff.mpr fun s member => ?_
  rcases List.mem_cons.mp member with rfl | member
  · rw [FileSection.heard_eq_path_iff.mpr movedIn_clear]
    decide
  · rw [List.mem_singleton.mp member, heard_resident]
    decide

end Git
end ChangeLens
