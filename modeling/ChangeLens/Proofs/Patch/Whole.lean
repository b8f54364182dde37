import ChangeLens.Proofs.Patch.Sections

/-! Patches that are made up of whole sections, whatever stands in these. A section begins with its mark at the start of
a line, and no other line of it begins so. Such a patch is cut where its sections were joined. -/
namespace ChangeLens.Patch

open Text

/-- A section that begins with its mark, goes on behind it, and holds no second one at the start of a line. -/
structure Whole (s : List Char) : Prop where
  marked : sectionMark <+: s
  more : sectionMark.length < s.length
  single : ¬('\n' :: sectionMark) <:+: s

/-- A patch as the whole sections that it is made up of. All but the last end in a line feed, so that the next one
begins a line. -/
structure Sectioned (patch : List Char) (ss : List (List Char)) : Prop where
  nonempty : ss ≠ []
  whole : ∀ s ∈ ss, Whole s
  ended : ∀ s ∈ ss.dropLast, s.getLast? = some '\n'
  joined : patch = ss.flatten

def unmarked (s : List Char) : List Char := s.drop sectionMark.length

@[simp] theorem unmarked_mark_append (body : List Char) : unmarked (sectionMark ++ body) = body := List.drop_left

theorem Whole.unmarked_ne_nil {s : List Char} (whole : Whole s) : unmarked s ≠ [] := by
  simpa [unmarked] using whole.more

theorem Whole.unmarked_single {s : List Char} (whole : Whole s) : ¬('\n' :: sectionMark) <:+: unmarked s :=
  fun inside => whole.single (inside.trans (List.drop_suffix _ _).isInfix)

theorem prefix_intercalate_cons (l : List Char) (ls : List (List Char)) : l <+: ['\n'].intercalate (l :: ls) := by
  cases ls with
  | nil => simp
  | cons k ks =>
    rw [List.intercalate_cons_cons, List.append_assoc]
    exact List.prefix_append l _

/-- Every line but the first stands behind a line feed. -/
theorem newline_cons_isInfix {l : List Char} {ls : List (List Char)} {m : List Char} (member : m ∈ ls) :
    '\n' :: m <:+: ['\n'].intercalate (l :: ls) := by
  induction ls generalizing l with
  | nil => exact absurd member List.not_mem_nil
  | cons k ks ih =>
    rw [List.intercalate_cons_cons]
    rcases List.mem_cons.mp member with rfl | later
    · obtain ⟨rest, equal⟩ := prefix_intercalate_cons m ks
      exact ⟨l, rest, by simp [← equal]⟩
    · exact (ih later).trans (List.suffix_append _ _).isInfix

theorem splitOn_mark_append (cs : List Char) :
    (sectionMark ++ cs).splitOn '\n' = (cs.splitOn '\n').modifyHead (sectionMark ++ ·) := by
  simp [sectionMark_eq, List.splitOn_cons_eq_if_modifyHead, List.modifyHead_modifyHead, Function.comp_def]

theorem flatMap_splitOn (cs : List Char) : (cs.splitOn '\n').flatMap (· ++ ['\n']) = cs ++ ['\n'] := by
  rw [← intercalate_concat_nil, ← List.splitOn_nil '\n', ← List.splitOn_append_cons_self, List.intercalate_splitOn]

/-- The lines of a section become one group, and the group before it ends. -/
theorem foldr_addLine_section {body : List Char} (single : ¬('\n' :: sectionMark) <:+: body)
    (g : List (List Char)) (gs : List (List (List Char))) :
    ((sectionMark ++ body).splitOn '\n').foldr addLine (g :: gs) = [] :: (body.splitOn '\n' ++ g) :: gs := by
  have joined : ['\n'].intercalate (body.splitOn '\n') = body := List.intercalate_splitOn '\n'
  obtain ⟨l, ls, lines⟩ := List.exists_cons_of_ne_nil (List.splitOn_ne_nil '\n' body)
  rw [lines] at joined
  have later : ∀ k ∈ ls, after? sectionMark k = none := by
    intro k member
    refine after?_eq_none_iff.mpr fun marked => single ?_
    have inside : '\n' :: k <:+: body := joined ▸ newline_cons_isInfix member
    exact (List.prefix_cons_inj '\n' |>.mpr marked).isInfix.trans inside
  rw [splitOn_mark_append, lines, List.modifyHead_cons, List.foldr_cons, foldr_addLine_unmarked later, addLine,
    after?_append, List.cons_append]

theorem groupLines_section {body : List Char} (single : ¬('\n' :: sectionMark) <:+: body) :
    groupLines ((sectionMark ++ body).splitOn '\n') = [[], body.splitOn '\n'] := by
  rw [groupLines, foldr_addLine_section single, List.append_nil]

theorem groupLines_section_append {body rest : List Char} {gs : List (List (List Char))}
    (single : ¬('\n' :: sectionMark) <:+: body) (grouped : groupLines (rest.splitOn '\n') = [] :: gs) :
    groupLines ((sectionMark ++ body ++ '\n' :: rest).splitOn '\n') = [] :: body.splitOn '\n' :: gs := by
  rw [groupLines] at grouped ⊢
  rw [List.splitOn_append_cons_self, List.foldr_append, grouped, foldr_addLine_section single, List.append_nil]

theorem groupLines_flatten {ss : List (List Char)} (nonempty : ss ≠ []) (whole : ∀ s ∈ ss, Whole s)
    (ended : ∀ s ∈ ss.dropLast, s.getLast? = some '\n') :
    ∃ g gs, groupLines (ss.flatten.splitOn '\n') = [] :: g :: gs ∧ groupTexts (g :: gs) = ss.map unmarked := by
  induction ss with
  | nil => exact absurd rfl nonempty
  | cons s ss ih =>
    have first := whole s (.head _)
    have single := first.unmarked_single
    obtain ⟨body, rfl⟩ := first.marked
    rw [unmarked_mark_append] at single
    cases ss with
    | nil =>
      refine ⟨body.splitOn '\n', [], ?_, by simp [groupTexts, List.intercalate_splitOn]⟩
      rw [List.flatten_singleton, groupLines_section single]
    | cons next ss =>
      obtain ⟨g, gs, grouped, same⟩ := ih (by simp) (fun t member => whole t (.tail _ member))
        fun t member => ended t (by simp_all)
      have last : body.getLast? = some '\n' := by
        rw [← List.getLast?_append_of_ne_nil sectionMark (by simpa using first.unmarked_ne_nil)]
        exact ended _ (by simp)
      obtain ⟨kept, rfl⟩ := List.getLast?_eq_some_iff.mp last
      have keptSingle : ¬('\n' :: sectionMark) <:+: kept := fun inside =>
        single (inside.trans (List.prefix_append _ _).isInfix)
      refine ⟨kept.splitOn '\n', g :: gs, ?_, ?_⟩
      · rw [← groupLines_section_append keptSingle grouped]
        simp
      · rw [groupTexts, same, flatMap_splitOn]
        · simp
        · exact List.cons_ne_nil g gs

/-- A patch comes apart where its sections were joined. -/
theorem sections_of_sectioned {patch : String} {ss : List (List Char)} (sectioned : Sectioned patch.toList ss) :
    sections patch = ss.map unmarked := by
  obtain ⟨g, gs, grouped, same⟩ := groupLines_flatten sectioned.nonempty sectioned.whole sectioned.ended
  rw [sections, sectioned.joined, grouped, groupTexts, List.flatMap_nil, List.filter_cons_of_neg (by simp), same,
    List.filter_eq_self]
  · intro t member
    obtain ⟨s, listed, rfl⟩ := List.mem_map.mp member
    simpa using (sectioned.whole s listed).unmarked_ne_nil
  · simp

end ChangeLens.Patch
