import ChangeLens.Git.Listing
import ChangeLens.Proofs.Text.Lines

/-! The log of a file as git writes it, one line for each commit. The subject is free text and may hold the sign that
divides the fields; the hash in front of it and the age behind it do not, so every line can be read back. -/
namespace ChangeLens.HistoryEntry

open Text

structure Commit where
  hash : List Char
  subject : List Char
  age : List Char
  hash_nonempty : hash ≠ []
  hash_solid : ∀ c ∈ hash, c ≠ '|' ∧ isBlank c = false
  subject_single : '\n' ∉ subject
  age_nonempty : age ≠ []
  age_single : '\n' ∉ age
  age_undivided : '|' ∉ age
  /-- The age may begin with a blank, but not end in one. -/
  age_solid : ∀ c ∈ age.getLast?, isBlank c = false

namespace Commit

def line (c : Commit) : List Char := c.hash ++ '|' :: (c.subject ++ '|' :: c.age)

def entry (c : Commit) : HistoryEntry := ⟨.ofList c.hash, .ofList c.subject, .ofList c.age⟩

theorem flush_line (c : Commit) : Flush c.line := by
  obtain ⟨d, rest, hash⟩ := List.exists_cons_of_ne_nil c.hash_nonempty
  refine ⟨⟨d, by simp [line, hash], (c.hash_solid d (hash ▸ .head _)).2⟩, ?_⟩
  have hash_single : '\n' ∉ c.hash := fun member => absurd (c.hash_solid _ member).2 (by decide)
  simp [line, hash_single, c.subject_single, c.age_single]

theorem cutEnd_line (c : Commit) : cutEnd c.line = c.line := by
  refine cutEnd_eq_self_iff.mpr fun d last => c.age_solid d ?_
  simpa [line, c.age_nonempty, List.getLast?_append, List.getLast?_cons_of_ne_nil] using last

/-- The first bar ends the hash. Of the bars behind it, those of the subject among them, the last one begins the age. -/
theorem ofLine_line (c : Commit) : ofLine (.ofList c.line) = c.entry := by
  have hash_undivided : '|' ∉ c.hash := fun member => (c.hash_solid _ member).1 rfl
  rw [ofLine, String.toList_ofList, line, cutFirst_append hash_undivided]
  simp only [Option.getD_some, cutLast_append c.subject c.age_undivided, entry]

end Commit

/-- Whatever the subjects of the commits hold, reading the log of some commits gives these, in order. -/
theorem ofText_log (commits : List Commit) (ended : Bool) :
    ofText (unlines (commits.map Commit.line) ended) = commits.map Commit.entry := by
  cases commits using List.reverseRec with
  | nil =>
    rw [ofText, List.map_nil, trim_unlines_nil]
    rfl
  | append_singleton front last =>
    have flush : ∀ l ∈ (front ++ [last]).map Commit.line, Flush l := by
      rintro _ member
      obtain ⟨c, -, rfl⟩ := List.mem_map.mp member
      exact c.flush_line
    have filled : ∀ l ∈ ((front ++ [last]).map Commit.line).map String.ofList, !allBlank l := by
      rintro _ member
      obtain ⟨l, listed, rfl⟩ := List.mem_map.mp member
      rw [(flush l listed).not_allBlank]
      rfl
    rw [List.map_append, List.map_singleton] at flush filled ⊢
    rw [ofText, lines_trim_unlines flush, last.cutEnd_line, List.filter_eq_self.mpr filled]
    simp [Commit.ofLine_line]

/-- The age stands behind the last bar, also where the subject ends in one. -/
example : ofText "9c1f|a || b||2 days ago\n" = [⟨"9c1f", "a || b|", "2 days ago"⟩] := by rfl

end ChangeLens.HistoryEntry
