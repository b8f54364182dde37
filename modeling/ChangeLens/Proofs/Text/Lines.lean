import ChangeLens.Proofs.Text.Pieces

/-! Texts of lines that each begin with a character that is no blank, read by trimming the whole text and then cutting it
into lines. Such a text keeps its lines, but for the blanks at the end of the last one. -/
namespace ChangeLens.Text

/-- The text of some lines, with or without a line feed after the last one. -/
def unlines (ls : List (List Char)) (ended : Bool) : String :=
  .ofList (['\n'].intercalate ls ++ if ended then ['\n'] else [])

/-- What is left of a line without the blanks at its end. -/
def cutEnd (l : List Char) : List Char := dropEndWhile isBlank l

/-- One line, whose first character is no blank. -/
structure Flush (l : List Char) : Prop where
  starts : ∃ c ∈ l.head?, isBlank c = false
  single : '\n' ∉ l

theorem cutEnd_eq_self_iff {l : List Char} : cutEnd l = l ↔ ∀ c ∈ l.getLast?, isBlank c = false :=
  dropEndWhile_eq_self_iff

theorem cutEnd_cutEnd (l : List Char) : cutEnd (cutEnd l) = cutEnd l := List.rdropWhile_idempotent isBlank l

theorem notMem_cutEnd {c : Char} {l : List Char} (fresh : c ∉ l) : c ∉ cutEnd l :=
  fun member => fresh ((dropEndWhile_isPrefix isBlank l).subset member)

theorem cutEnd_cons {c : Char} (solid : isBlank c = false) (l : List Char) : cutEnd (c :: l) = c :: cutEnd l := by
  by_cases kept : ∃ d ∈ l, isBlank d = false
  · exact dropEndWhile_append_of_exists [c] kept
  · have blank : ∀ d ∈ l, isBlank d = true := by simpa using kept
    have alone : cutEnd [c] = [c] := cutEnd_eq_self_iff.mpr (by simpa using solid)
    have rest : cutEnd l = [] := dropEndWhile_eq_nil_iff.mpr blank
    rw [rest, ← alone]
    exact dropEndWhile_append_of_all [c] blank

/-- What is left of some fields, of which the last one loses the blanks at its end. One that is made of blanks goes, and
the field in front of it is the last one then. -/
def cutFields : List (List Char) → List (List Char)
  | [] => []
  | f :: fs => if ∀ g ∈ fs, cutEnd g = [] then [cutEnd f] else f :: cutFields fs

theorem cutFields_cons_ne_nil (f : List Char) (fs : List (List Char)) : cutFields (f :: fs) ≠ [] := by
  rw [cutFields]
  split <;> exact List.cons_ne_nil _ _

theorem notMem_of_mem_cutFields {c : Char} {fs : List (List Char)} (fresh : ∀ f ∈ fs, c ∉ f) :
    ∀ f ∈ cutFields fs, c ∉ f := by
  induction fs with
  | nil => exact fresh
  | cons f fs ih =>
    obtain ⟨here, later⟩ := List.forall_mem_cons.mp fresh
    rw [cutFields]
    split
    next => simpa using notMem_cutEnd here
    next => exact List.forall_mem_cons.mpr ⟨here, ih later⟩

theorem cutEnd_intercalate {sep : Char} (blank : isBlank sep = true) (fs : List (List Char)) :
    cutEnd ([sep].intercalate fs) = [sep].intercalate (cutFields fs) := by
  induction fs with
  | nil => rfl
  | cons f fs ih =>
    rw [cutFields]
    by_cases last : fs = []
    · simp [last]
    · have joined : [sep].intercalate (f :: fs) = f ++ ([sep] ++ [sep].intercalate fs) := by
        rw [List.intercalate_cons_of_ne_nil last, List.append_assoc]
      rw [joined]
      split
      next blanks =>
        have rest : ∀ c ∈ [sep] ++ [sep].intercalate fs, isBlank c = true := by
          have between : ∀ c ∈ [sep], isBlank c = true := by simpa using blank
          have inside : ∀ g ∈ fs, ∀ c ∈ g, isBlank c = true := fun g member =>
            dropEndWhile_eq_nil_iff.mp (blanks g member)
          exact List.forall_mem_append.mpr ⟨between, forall_mem_intercalate between inside⟩
        rw [List.intercalate_singleton]
        exact dropEndWhile_append_of_all f rest
      next solid =>
        obtain ⟨g, member, solid⟩ : ∃ g ∈ fs, cutEnd g ≠ [] := by simpa using solid
        obtain ⟨c, inside, solid⟩ : ∃ c ∈ g, isBlank c = false := by simpa [cutEnd, dropEndWhile_eq_nil_iff] using solid
        have kept : ∃ c ∈ [sep].intercalate fs, isBlank c = false := ⟨c, subset_intercalate [sep] member inside, solid⟩
        obtain ⟨g, gs, rfl⟩ := List.exists_cons_of_ne_nil last
        rw [List.intercalate_cons_of_ne_nil (cutFields_cons_ne_nil g gs), ← ih, cutEnd, ← List.append_assoc,
          dropEndWhile_append_of_exists _ kept, cutEnd]

namespace Flush

variable {l : List Char}

theorem exists_cons (flush : Flush l) : ∃ c rest, l = c :: rest ∧ isBlank c = false := by
  obtain ⟨c, first, solid⟩ := flush.starts
  obtain ⟨rest, rfl⟩ := List.head?_eq_some_iff.mp first
  exact ⟨c, rest, rfl, solid⟩

theorem cutEnd (flush : Flush l) : Flush (cutEnd l) := by
  refine ⟨?_, notMem_cutEnd flush.single⟩
  obtain ⟨c, rest, rfl, solid⟩ := flush.exists_cons
  exact ⟨c, by rw [cutEnd_cons solid]; rfl, solid⟩

theorem not_allBlank (flush : Flush l) : allBlank (.ofList l) = false := by
  obtain ⟨c, rest, rfl, solid⟩ := flush.exists_cons
  simp [allBlank, solid]

theorem dropWhile_unlines (flush : Flush l) (ls : List (List Char)) (ended : Bool) :
    (unlines (l :: ls) ended).toList.dropWhile isBlank = (unlines (l :: ls) ended).toList := by
  obtain ⟨c, rest, rfl, solid⟩ := flush.exists_cons
  cases ls <;> simp [unlines, List.intercalate_cons_cons, solid]

end Flush

variable {front : List (List Char)} {last : List Char}

/-- Trimming takes the last line feed and then the blanks at the end of the last line. It goes no further, since that
line begins with a character that is none. -/
theorem trim_unlines (flush : ∀ l ∈ front ++ [last], Flush l) (ended : Bool) :
    trim (unlines (front ++ [last]) ended) = unlines (front ++ [cutEnd last]) false := by
  have front_kept : (unlines (front ++ [last]) ended).toList.dropWhile isBlank =
      (unlines (front ++ [last]) ended).toList := by
    obtain ⟨l, ls, lines⟩ := List.exists_cons_of_ne_nil (List.append_ne_nil_of_right_ne_nil front (List.cons_ne_nil last []))
    rw [lines]
    exact (flush l (lines ▸ .head _)).dropWhile_unlines ls ended
  have line_feed : ∀ c ∈ (if ended then ['\n'] else []), isBlank c = true := by
    cases ended with
    | false => exact List.forall_mem_nil _
    | true => exact List.forall_mem_singleton.mpr rfl
  have solid : ∃ c ∈ last, isBlank c = false := by
    obtain ⟨c, rest, rfl, solid⟩ := (flush last (by simp)).exists_cons
    exact ⟨c, .head _, solid⟩
  rw [trim, trimChars, trimWhile, front_kept, unlines, String.toList_ofList, dropEndWhile_append_of_all _ line_feed,
    intercalate_concat, dropEndWhile_append_of_exists _ solid, unlines, intercalate_concat]
  simp [cutEnd]

/-- The lines of such a text. -/
theorem lines_trim_unlines (flush : ∀ l ∈ front ++ [last], Flush l) (ended : Bool) :
    lines (trim (unlines (front ++ [last]) ended)) = (front ++ [cutEnd last]).map .ofList := by
  have single : ∀ l ∈ front ++ [cutEnd last], '\n' ∉ l := by
    intro l member
    rcases List.mem_append.mp member with member | member
    · exact (flush l (List.mem_append_left _ member)).single
    · rw [List.mem_singleton.mp member]
      exact (flush last (by simp)).cutEnd.single
  rw [trim_unlines flush ended, lines, unlines, if_neg Bool.false_ne_true, List.append_nil,
    splitAt_intercalate single (by simp)]

theorem trim_unlines_nil (ended : Bool) : trim (unlines [] ended) = "" := by
  cases ended <;> rfl

end ChangeLens.Text
