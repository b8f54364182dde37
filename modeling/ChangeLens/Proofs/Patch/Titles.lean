import ChangeLens.Proofs.Patch.Sections

/-! Sections under the paths that are read from their titles. A title does not say where its first path ends. It is cut
at the first separator, which is the true one unless the old path holds another behind its first character; then the
section goes by a longer path, and if a later section goes by the same one, only that is kept. -/
namespace ChangeLens.Patch

namespace FileSection

/-- Whether the first separator that can be read stands between the paths. -/
def Clear (s : FileSection) : Prop := ¬separator <:+: s.old.val.tail

theorem length_lt_behindFirst {old : List Char} (inside : separator <:+: old) (new : List Char) :
    new.length < (behindFirst old new).length := by
  induction old with
  | nil => simp [separator] at inside
  | cons c old ih =>
    by_cases here : separator <+: c :: old
    · obtain ⟨rest, equal⟩ := here
      rw [← equal, behindFirst_here]
      simp only [separator, List.length_append, List.length_cons]
      omega
    · rw [behindFirst_later here]
      exact ih ((List.infix_cons_iff.mp inside).resolve_left here)

theorem heard_eq_path_iff {s : FileSection} : s.heard = s.path ↔ s.Clear := by
  rw [heard, path, String.ofList_inj]
  constructor
  · intro same inside
    have longer := length_lt_behindFirst inside s.new.val
    rw [same] at longer
    exact absurd longer (Nat.lt_irrefl _)
  · exact fun clear => behindFirst_of_free clear s.new.val

end FileSection

theorem map_fst_readings (ss : List FileSection) (ended : Bool) :
    (readings ended ss).map (·.1) = ss.map FileSection.heard := by
  induction ss with
  | nil => rfl
  | cons s ss ih => rw [readings, List.map_cons, ih, List.map_cons]

theorem readings_append (before after : List FileSection) (s : FileSection) (ended : Bool) :
    readings ended (before ++ s :: after) =
      readings true before ++ (s.heard, s.part (ended || !after.isEmpty)) :: readings ended after := by
  induction before with
  | nil => rfl
  | cons t before ih =>
    have more : (before ++ s :: after).isEmpty = false := by simp
    simp [readings, ih, more]

/-- Of the sections that go by one path the last is kept. -/
theorem find?_byPath_heard {before after : List FileSection} {s : FileSection}
    (last : ∀ t ∈ after, t.heard ≠ s.heard) (ended : Bool) :
    (byPath (written (before ++ s :: after) ended)).find? s.heard = some (s.part (ended || !after.isEmpty)) := by
  rw [byPath_written, readings_append]
  refine Keyed.find?_ofList_of_last ?_ _
  rw [map_fst_readings]
  simpa using last

theorem find?_byPath_eq_none_iff {ss : List FileSection} {path : String} {ended : Bool} :
    (byPath (written ss ended)).find? path = none ↔ ∀ s ∈ ss, s.heard ≠ path := by
  rw [byPath_written, Keyed.find?_ofList_eq_none_iff, map_fst_readings]
  simp

variable {before after : List FileSection} {s : FileSection}

/-- Only a section whose title is misread can go by the path of another one. -/
theorem heard_ne_path_of_distinct {t : FileSection}
    (distinct : ((before ++ s :: after).map FileSection.path).Nodup) (other : t ∈ before ∨ t ∈ after)
    (misread : ¬t.Clear → t.heard ≠ s.path) : t.heard ≠ s.path := by
  by_cases clear : t.Clear
  · rw [FileSection.heard_eq_path_iff.mpr clear]
    intro same
    rw [List.map_append, List.map_cons, List.nodup_append, List.nodup_cons] at distinct
    rcases other with earlier | later
    · exact distinct.2.2 t.path (List.mem_map_of_mem earlier) s.path (.head _) same
    · exact distinct.2.1.1 (same ▸ List.mem_map_of_mem later)
  · exact misread clear

/-- A section with a clear title is found by its path, unless a later one is misread as that path. -/
theorem find?_byPath_of_clear (distinct : ((before ++ s :: after).map FileSection.path).Nodup) (clear : s.Clear)
    (unshadowed : ∀ t ∈ after, ¬t.Clear → t.heard ≠ s.path) (ended : Bool) :
    (byPath (written (before ++ s :: after) ended)).find? s.path = some (s.part (ended || !after.isEmpty)) := by
  rw [← FileSection.heard_eq_path_iff.mpr clear]
  refine find?_byPath_heard (fun t later => ?_) ended
  rw [FileSection.heard_eq_path_iff.mpr clear]
  exact heard_ne_path_of_distinct distinct (.inr later) (unshadowed t later)

/-- A section whose title is misread is lost to its path. -/
theorem find?_byPath_of_not_clear (distinct : ((before ++ s :: after).map FileSection.path).Nodup)
    (unclear : ¬s.Clear) (unshadowed : ∀ t ∈ before ++ s :: after, ¬t.Clear → t.heard ≠ s.path) (ended : Bool) :
    (byPath (written (before ++ s :: after) ended)).find? s.path = none := by
  refine find?_byPath_eq_none_iff.mpr fun t member => ?_
  rcases List.mem_append.mp member with earlier | later
  · exact heard_ne_path_of_distinct distinct (.inl earlier) (unshadowed t member)
  · rcases List.mem_cons.mp later with rfl | later
    · exact mt FileSection.heard_eq_path_iff.mp unclear
    · exact heard_ne_path_of_distinct distinct (.inr later) (unshadowed t member)

end ChangeLens.Patch
