import ChangeLens.Proofs.Keyed
import ChangeLens.Proofs.Text.Pieces
import ChangeLens.Report.Sections
import Mathlib.Data.List.Forall2

/-! The counts in the part of a report about the dependency graph. They are called counts of files, but they count
edges, and there is one for each import; so they are too high wherever a file imports another one twice. -/
namespace ChangeLens.Report

open Text DependencyGraph

/-- Two texts agree but for one number, if at all, and no digit stands behind it. -/
inductive Alike : String → String → Prop where
  | same (s : String) : Alike s s
  | counted (before after : String) (n m : Nat) : (∃ c ∈ after.toList.head?, c.isDigit = false) →
      Alike (before ++ toString n ++ after) (before ++ toString m ++ after)

theorem toList_toString (n : Nat) : (toString n).toList = Nat.toDigits 10 n := Nat.toList_repr

theorem toString_inj {n m : Nat} : toString n = toString m ↔ n = m := by
  refine ⟨fun same => ?_, fun same => by rw [same]⟩
  have digits : Nat.toDigits 10 n = Nat.toDigits 10 m := by rw [← toList_toString, same, toList_toString]
  simpa using congrArg (Nat.ofDigitChars 10 · 0) digits

theorem takeWhile_toString_append (n : Nat) {c : Char} (ends : c.isDigit = false) (cs : List Char) :
    ((toString n).toList ++ c :: cs).takeWhile Char.isDigit = (toString n).toList := by
  have digits : ∀ d ∈ (toString n).toList, d.isDigit = true := by
    intro d member
    rw [toList_toString] at member
    exact Nat.isDigit_of_mem_toDigits (by decide) (by decide) member
  rw [List.takeWhile_append_of_pos digits, List.takeWhile_cons_of_neg (by simp [ends]), List.append_nil]

theorem Alike.append_inj {p q s t : String} (alike : Alike p q) (equal : p ++ s = q ++ t) : p = q ∧ s = t := by
  cases alike with
  | same => exact ⟨rfl, String.append_right_inj _ |>.mp equal⟩
  | counted before after n m ends =>
    obtain ⟨c, first, ends⟩ := ends
    obtain ⟨rest, split⟩ := List.head?_eq_some_iff.mp first
    have lists := congrArg String.toList equal
    simp only [String.toList_append, split, List.append_assoc, List.append_cancel_left_eq, List.cons_append] at lists
    have numbers : toString n = toString m := by
      apply String.toList_injective
      rw [← takeWhile_toString_append n ends, lists, takeWhile_toString_append m ends]
    rw [numbers] at equal ⊢
    exact ⟨rfl, String.append_right_inj _ |>.mp equal⟩

theorem joinWith_inj_of_alike {sep : String} {ps qs : List String} (alike : List.Forall₂ Alike ps qs)
    (equal : joinWith sep ps = joinWith sep qs) : ps = qs := by
  induction alike with
  | nil => rfl
  | @cons p q ps qs here later ih =>
    cases later with
    | nil =>
      rw [joinWith, joinWith, String.intercalate_singleton, String.intercalate_singleton] at equal
      rw [equal]
    | cons next later =>
      rw [joinWith, joinWith, String.intercalate_cons_cons, String.intercalate_cons_cons, String.append_assoc,
        String.append_assoc] at equal
      obtain ⟨rfl, rest⟩ := here.append_inj equal
      rw [ih ((String.append_right_inj sep).mp rest)]

def importsOf (g : DependencyGraph) (target : String) : List Edge := g.reverse.filter (·.target == target)

def imported (g : DependencyGraph) : List String := (g.reverse.map (·.target)).eraseDups

def fileCount (edges : List Edge) : Nat := (sources edges).length

section

variable (count : List Edge → Nat) (g : DependencyGraph)

def importersPart (target : String) (edges : List Edge) : String :=
  "- " ++ target ++ " is imported by " ++ toString (count edges) ++
    (" file(s):\n" ++ joinWith "\n" (edges.map importerRow))

def reverseCounted : List String :=
  if g.reverse.isEmpty then ["No other files import the changed files — blast radius is contained."]
  else
    "### Files that import changed files (may be affected):" ::
      (imported g).map fun target => importersPart count target (importsOf g target)

/-- The first files of the second ring, and how many more there are. -/
def ringRows (files : List String) : List String :=
  joinWith "\n" ((files.take maxSecondRing).map ("- " ++ ·)) ::
    if files.length > maxSecondRing then ["- ... and " ++ toString (files.length - maxSecondRing) ++ " more"] else []

def ringCounted : List String :=
  if g.secondRing.isEmpty then []
  else
    ("\n### Second-ring impact (" ++ toString (count g.secondRing) ++ " files import the affected files above)") ::
      ringRows g.secondDependents

def graphCounted : String := joinWith "\n" (reverseCounted count g ++ forwardParts g ++ ringCounted count g)

end

theorem reverseParts_eq (g : DependencyGraph) : reverseParts g = reverseCounted List.length g := by
  rw [reverseParts, reverseCounted, Keyed.entries_group]
  split
  next => rfl
  next =>
    simp [imported, importersPart, importsOf, List.filter_map, Function.comp_def, String.append_assoc]

theorem graphSection_eq (g : DependencyGraph) : graphSection (some g) = graphCounted List.length g := by
  rw [graphSection, graphCounted, reverseParts_eq]
  rfl

variable {count other : List Edge → Nat} {g : DependencyGraph}

theorem alike_importersPart (target : String) (edges : List Edge) :
    Alike (importersPart count target edges) (importersPart other target edges) :=
  .counted _ _ _ _ ⟨' ', by simp, by decide⟩

theorem forall₂_alike_self (lines : List String) : List.Forall₂ Alike lines lines :=
  List.forall₂_same.mpr fun line _ => .same line

theorem forall₂_reverseCounted : List.Forall₂ Alike (reverseCounted count g) (reverseCounted other g) := by
  unfold reverseCounted
  split
  · exact forall₂_alike_self _
  · refine .cons (.same _) ?_
    rw [List.forall₂_map_left_iff, List.forall₂_map_right_iff]
    exact List.forall₂_same.mpr fun target _ => alike_importersPart target _

theorem forall₂_ringCounted : List.Forall₂ Alike (ringCounted count g) (ringCounted other g) := by
  unfold ringCounted
  split
  · exact .nil
  · exact .cons (.counted _ _ _ _ ⟨' ', by simp, by decide⟩) (forall₂_alike_self _)

theorem importersPart_inj {target : String} {edges : List Edge} :
    importersPart count target edges = importersPart other target edges ↔ count edges = other edges := by
  rw [importersPart, importersPart, String.append_left_inj, String.append_right_inj, toString_inj]

theorem reverseCounted_inj : reverseCounted count g = reverseCounted other g ↔
    ∀ target ∈ imported g, count (importsOf g target) = other (importsOf g target) := by
  unfold reverseCounted
  split
  next none => simp [imported, List.isEmpty_iff.mp none]
  next => simp only [List.cons.injEq, true_and, List.map_inj_left, importersPart_inj]

theorem ringCounted_inj : ringCounted count g = ringCounted other g ↔
    (g.secondRing ≠ [] → count g.secondRing = other g.secondRing) := by
  unfold ringCounted
  split
  next none => simp [List.isEmpty_iff.mp none]
  next some =>
    have some : g.secondRing ≠ [] := by simpa using some
    simp only [List.cons.injEq, and_true, String.append_left_inj, String.append_right_inj, toString_inj, some, ne_eq,
      not_false_eq_true, true_implies]

/-- Two ways to count give one text just if they agree on all edges that are counted in it. -/
theorem graphCounted_inj : graphCounted count g = graphCounted other g ↔
    (∀ target ∈ imported g, count (importsOf g target) = other (importsOf g target)) ∧
      (g.secondRing ≠ [] → count g.secondRing = other g.secondRing) := by
  rw [← reverseCounted_inj, ← ringCounted_inj, graphCounted, graphCounted]
  constructor
  · intro equal
    have reverse : List.Forall₂ Alike (reverseCounted count g) (reverseCounted other g) := forall₂_reverseCounted
    have lines := joinWith_inj_of_alike
      (List.rel_append (List.rel_append reverse (forall₂_alike_self (forwardParts g))) forall₂_ringCounted) equal
    obtain ⟨front, ring⟩ := List.append_inj lines (by simp [reverse.length_eq])
    exact ⟨(List.append_inj front reverse.length_eq).1, ring⟩
  · rintro ⟨reverse, ring⟩
    rw [reverse, ring]

theorem fileCount_eq_iff (edges : List Edge) : fileCount edges = edges.length ↔ (edges.map (·.source)).Nodup := by
  rw [fileCount, sources, ← length_eraseDups_eq_iff, List.length_map]

theorem graphSection_counts_edges (g : DependencyGraph) :
    graphSection (some g) = graphCounted List.length g ∧
      (graphSection (some g) = graphCounted fileCount g ↔
        (∀ target, ((importsOf g target).map (·.source)).Nodup) ∧ (g.secondRing.map (·.source)).Nodup) := by
  refine ⟨graphSection_eq g, ?_⟩
  rw [graphSection_eq, graphCounted_inj]
  simp only [@eq_comm Nat (List.length _), fileCount_eq_iff]
  have unimported : ∀ target, target ∉ imported g → importsOf g target = [] := by
    intro target missing
    simpa [imported, importsOf] using missing
  refine and_congr ⟨fun each target => ?_, fun all target _ => all target⟩ ⟨fun ring => ?_, fun ring _ => ring⟩
  · by_cases known : target ∈ imported g
    · exact each target known
    · simp [unimported target known]
  · by_cases none : g.secondRing = []
    · simp [none]
    · exact ring none

def twice : DependencyGraph where
  reverse := [⟨"a.py", "b.py", "b", ["load"]⟩, ⟨"a.py", "b.py", "b", ["store"]⟩]
  secondRing := [⟨"main.py", "a.py", "a", []⟩, ⟨"main.py", "a.py", "a", ["run"]⟩]

theorem repeated_imports_overcounted :
    imported twice = ["b.py"] ∧ fileCount (importsOf twice "b.py") = 1 ∧ fileCount twice.secondRing = 1 ∧
      graphSection (some twice) =
        "### Files that import changed files (may be affected):\n" ++
        "- b.py is imported by 2 file(s):\n    - a.py (uses: load)\n    - a.py (uses: store)\n" ++
        "\n### Second-ring impact (2 files import the affected files above)\n- main.py" ∧
      graphSection (some twice) ≠ graphCounted fileCount twice := by
  have overcounted : ¬∀ target ∈ imported twice,
      List.length (importsOf twice target) = fileCount (importsOf twice target) := by decide
  refine ⟨by decide, by decide, by decide, by decide +kernel, ?_⟩
  rw [graphSection_eq, ne_eq, graphCounted_inj]
  exact fun same => overcounted same.1

end ChangeLens.Report
