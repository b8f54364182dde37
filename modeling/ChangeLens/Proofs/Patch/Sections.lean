import ChangeLens.Proofs.Patch.Form
import ChangeLens.Proofs.Text.Pieces

/-! Reading a written patch: its sections come apart where they were joined, each title tells the new path, and
the hunks of a file are what follows the lines of its header. -/
namespace ChangeLens.Patch

open Text

theorem intercalate_concat_nil (ls : List (List Char)) :
    ['\n'].intercalate (ls ++ [[]]) = ls.flatMap (· ++ ['\n']) := by
  rw [intercalate_concat, List.append_nil]

theorem foldr_addLine_unmarked {ls : List (List Char)} (unmarked : ∀ l ∈ ls, after? sectionMark l = none)
    (g : List (List Char)) (gs : List (List (List Char))) :
    ls.foldr addLine (g :: gs) = (ls ++ g) :: gs := by
  induction ls with
  | nil => rfl
  | cons l ls ih =>
    rw [List.foldr_cons, ih fun k member => unmarked k (.tail _ member)]
    simp [addLine, unmarked l (.head _)]

namespace FileSection

def inner (s : FileSection) : List (List Char) := s.title :: s.body

theorem foldr_addLine (s : FileSection) (g : List (List Char)) (gs : List (List (List Char))) :
    s.lines.foldr addLine (g :: gs) = [] :: (s.inner ++ g) :: gs := by
  rw [lines, List.foldr_cons, foldr_addLine_unmarked fun _ => not_marked_of_mem_body]
  simp [addLine, after?_append, inner]

end FileSection

/-- The texts of sections without their marks. Only the last one may lack the line feed at its end. -/
def texts (ended : Bool) : List FileSection → List (List Char)
  | [] => []
  | s :: ss => ['\n'].intercalate (s.inner ++ lastLine (ended || !ss.isEmpty)) :: texts ended ss

theorem groupLines_lastLine (ended : Bool) : groupLines (lastLine ended) = [lastLine ended] := by
  cases ended
  · rfl
  · simp [groupLines, lastLine, addLine, sectionMark_eq, after?]

theorem groupLines_lines (s : FileSection) (ss : List FileSection) (ended : Bool) :
    ∃ g gs, groupLines ((s :: ss).flatMap FileSection.lines ++ lastLine ended) = [] :: g :: gs ∧
      groupTexts (g :: gs) = texts ended (s :: ss) := by
  induction ss generalizing s with
  | nil =>
    refine ⟨s.inner ++ lastLine ended, [], ?_, by simp [groupTexts, texts]⟩
    have last := groupLines_lastLine ended
    rw [groupLines] at last ⊢
    rw [List.flatMap_singleton, List.foldr_append, last, s.foldr_addLine]
  | cons next ss ih =>
    obtain ⟨g, gs, rest, same⟩ := ih next
    refine ⟨s.inner ++ [], g :: gs, ?_, ?_⟩
    · rw [groupLines] at rest ⊢
      rw [List.flatMap_cons, List.append_assoc, List.foldr_append, rest, s.foldr_addLine]
    · rw [groupTexts, same]
      · simp [texts, lastLine, intercalate_concat_nil]
      · simp

theorem splitOn_written {ls : List (List Char)} (free : ∀ l ∈ ls, '\n' ∉ l) (nonempty : ls ≠ []) (ended : Bool) :
    (['\n'].intercalate (ls ++ lastLine ended)).splitOn '\n' = ls ++ lastLine ended := by
  refine List.splitOn_intercalate '\n' (fun l member => ?_) (by simp [nonempty])
  rcases List.mem_append.mp member with member | member
  · exact free l member
  · cases ended <;> simp_all [lastLine]

theorem mem_texts_ne_nil {ended : Bool} {ss : List FileSection} {t : List Char} (member : t ∈ texts ended ss) :
    t ≠ [] := by
  induction ss with
  | nil => simp [texts] at member
  | cons s ss ih =>
    rcases List.mem_cons.mp member with rfl | member
    · simp [FileSection.inner, FileSection.title, List.intercalate_cons_cons_left]
    · exact ih member

theorem sections_written (ss : List FileSection) (ended : Bool) :
    sections (written ss ended) = texts ended ss := by
  cases ss with
  | nil => cases ended <;> cbv
  | cons s ss =>
    have free : ∀ l ∈ (s :: ss).flatMap FileSection.lines, '\n' ∉ l := by
      intro l member
      obtain ⟨one, -, member⟩ := List.mem_flatMap.mp member
      exact one.newline_notMem member
    obtain ⟨g, gs, grouped, same⟩ := groupLines_lines s ss ended
    rw [sections, written, String.toList_ofList, splitOn_written free (by simp [FileSection.lines]), grouped,
      groupTexts, List.flatMap_nil, List.filter_cons_of_neg (by simp), same, List.filter_eq_self]
    · intro t member
      simpa using mem_texts_ne_nil member
    · simp

def separator : List Char := [' ', 'b', '/']

/-- What stands behind the first separator of `old ++ separator ++ new`: `new`, unless `old` holds one itself. -/
def behindFirst (old new : List Char) : List Char :=
  match old.tails.find? (separator.isPrefixOf ·) with
  | some rest => rest.drop separator.length ++ (separator ++ new)
  | none => new

theorem behindFirst_here (rest new : List Char) :
    behindFirst (separator ++ rest) new = rest ++ (separator ++ new) := by
  simp [behindFirst, separator]

theorem behindFirst_later {c : Char} {old : List Char} (fails : ¬separator <+: c :: old) (new : List Char) :
    behindFirst (c :: old) new = behindFirst old new := by
  rw [behindFirst, List.tails_cons, List.find?_cons_of_neg (by rwa [List.isPrefixOf_iff_prefix]), behindFirst]

theorem behindFirst_of_free {old : List Char} (free : ¬separator <:+: old) (new : List Char) :
    behindFirst old new = new := by
  induction old with
  | nil => rfl
  | cons c old ih =>
    rw [behindFirst_later fun here => free here.isInfix]
    exact ih fun inside => free (inside.trans (List.suffix_cons c old).isInfix)

theorem newPath?_append (old : List Char) {new : List Char} (nonempty : new ≠ []) :
    newPath? (old ++ ' ' :: 'b' :: '/' :: new) = some (behindFirst old new) := by
  induction old with
  | nil =>
    obtain ⟨p, ps, rfl⟩ := List.exists_cons_of_ne_nil nonempty
    simp [newPath?, after?, behindFirst, separator]
  | cons c old ih =>
    by_cases here : separator <+: c :: old
    · obtain ⟨rest, equal⟩ := here
      rw [← equal, behindFirst_here]
      cases rest <;> simp [separator, newPath?, after?]
    · have fails : after? [' ', 'b', '/'] (c :: (old ++ ' ' :: 'b' :: '/' :: new)) = none := by
        -- A separator that begins here would lie in the old path or run into the true one.
        rw [after?_eq_none_iff]
        rintro ⟨tail, found⟩
        rcases old with _ | ⟨x, _ | ⟨y, more⟩⟩
        · simp at found
        · simp at found
        · simp only [List.cons_append, List.nil_append, List.cons.injEq] at found
          obtain ⟨rfl, rfl, rfl, -⟩ := found
          exact here ⟨more, rfl⟩
      rw [List.cons_append, newPath?, fails, behindFirst_later here]
      exact ih

namespace FileSection

/-- Whether the title can be read in one way only. -/
def Plain (s : FileSection) : Prop := ¬[' ', 'b', '/'] <:+: s.old.val

/-- The path that is read from the title. The first character of the old path is never taken for a separator's. -/
def heard (s : FileSection) : String := .ofList (behindFirst s.old.val.tail s.new.val)

theorem heard_of_plain {s : FileSection} (plain : s.Plain) : s.heard = s.path := by
  rw [heard, behindFirst_of_free fun inside => plain (inside.trans (List.tail_suffix _).isInfix), path]

theorem headerPath?_title (s : FileSection) :
    headerPath? s.title = some (behindFirst s.old.val.tail s.new.val) := by
  obtain ⟨c, old, equal⟩ := List.exists_cons_of_ne_nil s.old_nonempty
  rw [headerPath?, title, after?_append, Option.bind_some, equal, List.cons_append, List.drop_succ_cons,
    List.drop_zero, List.tail_cons]
  exact newPath?_append old s.new_nonempty

/-- The lines of the hunks, and the empty line behind them if a line feed ends the section. -/
def hunkText (s : FileSection) (ended : Bool) : List Char :=
  if s.hunks = [] then [] else ['\n'].intercalate (s.hunkLines ++ lastLine ended)

theorem hunkLines_inner (s : FileSection) (ended : Bool) :
    Patch.hunkLines (s.inner ++ lastLine ended) =
      if s.hunks = [] then [] else s.hunkLines ++ lastLine ended := by
  have extended : ∀ l ∈ s.extended.map (·.val), (after? ['@', '@'] l).isNone = true := by
    intro l member
    obtain ⟨e, listed, rfl⟩ := List.mem_map.mp member
    rw [after?_eq_none_iff.mpr (s.unmarked e listed).1]
    rfl
  rw [Patch.hunkLines, inner, List.cons_append, List.tail_cons, body, List.append_assoc,
    List.dropWhile_append_of_pos extended]
  cases equal : s.hunks with
  | nil => cases ended <;> simp [hunkLines, equal, lastLine, List.dropWhile, after?]
  | cons h hs => simp [hunkLines, equal, Hunk.lines, Hunk.header, after?]

def part (s : FileSection) (ended : Bool) : FilePatch :=
  let ls := Patch.hunkLines (s.inner ++ lastLine ended)
  ⟨.ofList (s.hunkText ended), ls.countP isAddition, ls.countP isDeletion⟩

theorem readSection?_inner (s : FileSection) (ended : Bool) :
    readSection? (['\n'].intercalate (s.inner ++ lastLine ended)) = some (s.heard, s.part ended) := by
  have free : ∀ l ∈ s.inner, '\n' ∉ l := by
    intro l member
    rcases List.mem_cons.mp member with rfl | member
    · exact s.newline_notMem_title
    · exact newline_notMem_body member
  have text : ['\n'].intercalate (Patch.hunkLines (s.inner ++ lastLine ended)) = s.hunkText ended := by
    rw [hunkLines_inner, hunkText]
    split <;> rfl
  have first : (s.inner ++ lastLine ended).headD [] = s.title := rfl
  rw [readSection?, splitOn_written free (by simp [inner]), first, s.headerPath?_title]
  simp only [Option.map_some, text]
  rfl

end FileSection

/-- What is read from a patch, section by section. All sections but the last are ended by a line feed. -/
def readings (ended : Bool) : List FileSection → List (String × FilePatch)
  | [] => []
  | s :: ss => (s.heard, s.part (ended || !ss.isEmpty)) :: readings ended ss

theorem filterMap_readSection?_texts (ss : List FileSection) (ended : Bool) :
    (texts ended ss).filterMap readSection? = readings ended ss := by
  induction ss with
  | nil => rfl
  | cons s ss ih => rw [texts, List.filterMap_cons_some (s.readSection?_inner _), ih, readings]

theorem byPath_written (ss : List FileSection) (ended : Bool) :
    byPath (written ss ended) = .ofList (readings ended ss) := by
  rw [byPath, sections_written, filterMap_readSection?_texts]

def parts (ended : Bool) : List FileSection → List (String × FilePatch)
  | [] => []
  | s :: ss => (s.path, s.part (ended || !ss.isEmpty)) :: parts ended ss

theorem readings_of_plain {ss : List FileSection} (plain : ∀ s ∈ ss, s.Plain) (ended : Bool) :
    readings ended ss = parts ended ss := by
  induction ss with
  | nil => rfl
  | cons s ss ih =>
    rw [readings, FileSection.heard_of_plain (plain s (.head _)), ih fun t member => plain t (.tail _ member), parts]

theorem map_fst_parts (ss : List FileSection) (ended : Bool) :
    (parts ended ss).map (·.1) = ss.map FileSection.path := by
  induction ss with
  | nil => rfl
  | cons s ss ih => rw [parts, List.map_cons, ih, List.map_cons]

theorem mem_parts (before after : List FileSection) (s : FileSection) (ended : Bool) :
    (s.path, s.part (ended || !after.isEmpty)) ∈ parts ended (before ++ s :: after) := by
  induction before with
  | nil => exact .head _
  | cons _ before ih => exact .tail _ ih

/-- A written patch reads as one part for each section, in order. -/
theorem entries_byPath {ss : List FileSection} (plain : ∀ s ∈ ss, s.Plain)
    (distinct : (ss.map FileSection.path).Nodup) (ended : Bool) :
    (byPath (written ss ended)).entries = parts ended ss := by
  rw [byPath_written, readings_of_plain plain]
  exact Keyed.entries_ofList (map_fst_parts ss ended ▸ distinct)

theorem keys_byPath {ss : List FileSection} (plain : ∀ s ∈ ss, s.Plain)
    (distinct : (ss.map FileSection.path).Nodup) (ended : Bool) :
    (byPath (written ss ended)).keys = ss.map FileSection.path := by
  rw [Keyed.keys, entries_byPath plain distinct, map_fst_parts]

theorem find?_byPath {before after : List FileSection} {s : FileSection}
    (plain : ∀ t ∈ before ++ s :: after, t.Plain)
    (distinct : ((before ++ s :: after).map FileSection.path).Nodup) (ended : Bool) :
    (byPath (written (before ++ s :: after) ended)).find? s.path =
      some (s.part (ended || !after.isEmpty)) := by
  have keys := keys_byPath plain distinct ended
  rw [← Keyed.mem_entries_iff (keys ▸ distinct), entries_byPath plain distinct]
  exact mem_parts before after s ended

end ChangeLens.Patch
