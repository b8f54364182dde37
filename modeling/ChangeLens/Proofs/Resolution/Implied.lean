import ChangeLens.Proofs.Keyed
import ChangeLens.Proofs.Resolution.Relative

/-! Imports that leave out the extension of their file. Of the extensions that a file of the family can have only
four are tried, so a file with another one is found by no such import, and one that is tried later may be taken for
it. Where the file meant has one of the four, it is found. -/
namespace ChangeLens.Resolution

open Text ChangeLens.Path

/-- Extensions of the family that are not tried. -/
def untriedExtensions : List String := [".mjs", ".cjs"]

def familyExtensions : List String := impliedExtensions ++ untriedExtensions

/-- The file that stands for a directory, without its extension. The root has no name. -/
def indexIn (directory : String) : String := if directory = "" then "index" else directory ++ "/index"

/-- The files that a path without extension may mean: those of that name come before those in the directory of
that name. -/
def filesNamed (extensions : List String) (path : String) : List String :=
  extensions.map (path ++ ·) ++ extensions.map (indexIn path ++ ·)

variable {tracked : List String} {f j specifier family : String}

/-- Seen from the root, an index file in the root has no slash before it. -/
theorem indexIn_eq (unrooted : j.toList.head? ≠ some '/') (e : String) :
    String.ofList ((j ++ "/index" ++ e).toList.dropWhile (· == '/')) = indexIn j ++ e := by
  unfold indexIn
  split
  next root =>
    subst root
    apply String.toList_injective
    simp
  next solid =>
    rw [String.append_assoc]
    exact dropWhile_slash_eq_self (head?_append_ne_slash unrooted solid _)

theorem map_slashes_named (unrooted : j.toList.head? ≠ some '/') :
    (impliedExtensions.map (j ++ ·)).map (fun p => String.ofList (p.toList.dropWhile (· == '/'))) =
      impliedExtensions.map (j ++ ·) := by
  rw [List.map_map]
  apply List.map_congr_left
  intro e member
  apply dropWhile_slash_eq_self
  by_cases root : j = ""
  · subst root
    have dotted : ∀ e ∈ impliedExtensions, ("" ++ e).toList.head? ≠ some '/' := by decide
    exact dotted e member
  · exact head?_append_ne_slash unrooted root e

/-- Tried are the files with one of four extensions, each once. -/
theorem path?_eq_firstTracked (read : familyOf family f = "ecmascript") (written : isRelative specifier = true)
    (inside : joined? specifier f = some j) (bare : (splitExtension j).2 = "") :
    path? tracked specifier f family = firstTracked tracked (filesNamed impliedExtensions j) := by
  have unrooted := head?_ne_slash_of_joined? inside
  have untyped : runtimeExtensions.contains "" = false := by decide
  have index : (impliedExtensions.map (j ++ "/index" ++ ·)).map
      (fun p => String.ofList (p.toList.dropWhile (· == '/'))) = impliedExtensions.map (indexIn j ++ ·) := by
    rw [List.map_map]
    apply List.map_congr_left
    intro e _
    exact indexIn_eq unrooted e
  have known : familyOf family f ∈ ["ecmascript", "ruby", "c"] := by simp [read]
  have tried := paths_of_joined? known written inside
  have unwritten : (if "".isEmpty then [] else [j]) = [] := rfl
  simp only [read, expansions_ecmascript, bare, unwritten, untyped, Bool.false_eq_true, if_false,
    List.nil_append] at tried
  rw [path?, tried, List.find?_map, find?_eraseDups, ← List.find?_map, List.map_append, map_slashes_named unrooted,
    index]
  rfl

/-- A file with another extension is not the index of the directory of its name. -/
theorem untried_notMem_index {m : String} (untried : m ∈ untriedExtensions.map (j ++ ·)) :
    m ∉ impliedExtensions.map (indexIn j ++ ·) := by
  intro member
  obtain ⟨e, other, rfl⟩ := List.mem_map.mp untried
  obtain ⟨i, implied, same⟩ := List.mem_map.mp member
  have apart : ∀ e ∈ untriedExtensions, ∀ i ∈ impliedExtensions, "/index" ++ i ≠ e ∧ "index" ++ i ≠ e := by decide
  unfold indexIn at same
  split at same
  next root =>
    subst root
    apply (apart e other i implied).2
    simpa using same
  next =>
    apply (apart e other i implied).1
    rw [String.append_assoc] at same
    exact (String.append_right_inj j).mp same

/-- Trying four extensions gives what trying all would give just if that has one of the four. -/
theorem firstTracked_implied_iff (tracked : List String) (j : String) :
    firstTracked tracked (filesNamed impliedExtensions j) = firstTracked tracked (filesNamed familyExtensions j) ↔
      ∀ g, firstTracked tracked (filesNamed familyExtensions j) = some g → g ∈ filesNamed impliedExtensions j := by
  constructor
  · intro same g meant
    exact (mem_of_firstTracked (same.trans meant)).1
  · simp only [filesNamed, familyExtensions, List.map_append, firstTracked_append]
    intro covered
    -- All four parts are gone through in their order; the second and the fourth are not tried.
    cases named : firstTracked tracked (impliedExtensions.map (j ++ ·)) with
    | some g => rfl
    | none =>
      have unnamed := firstTracked_eq_none_iff.mp named
      cases untried : firstTracked tracked (untriedExtensions.map (j ++ ·)) with
      | some m =>
        obtain ⟨member, known⟩ := mem_of_firstTracked untried
        rcases List.mem_append.mp (covered m (by simp [named, untried])) with here | index
        · exact absurd known (unnamed m here)
        · exact absurd index (untried_notMem_index member)
      | none =>
        cases index : firstTracked tracked (impliedExtensions.map (indexIn j ++ ·)) with
        | some g => rfl
        | none =>
          have unindexed := firstTracked_eq_none_iff.mp index
          cases last : firstTracked tracked (untriedExtensions.map (indexIn j ++ ·)) with
          | none => rfl
          | some n =>
            have known := (mem_of_firstTracked last).2
            rcases List.mem_append.mp (covered n (by simp [named, untried, index, last])) with here | there
            · exact absurd known (unnamed n here)
            · exact absurd known (unindexed n there)

/-- A relative import without extension leads to the first tracked file of its name with one of the four extensions,
and to none if there is none. That is the first of all files it may mean unless one with another extension comes
first. -/
theorem path?_without_extension (read : familyOf family f = "ecmascript") (written : isRelative specifier = true)
    (inside : joined? specifier f = some j) (bare : (splitExtension j).2 = "") :
    path? tracked specifier f family = firstTracked tracked (filesNamed impliedExtensions j) ∧
      ((∃ g, path? tracked specifier f family = some g) ↔
        ∃ e ∈ impliedExtensions, j ++ e ∈ tracked ∨ indexIn j ++ e ∈ tracked) ∧
      (path? tracked specifier f family = firstTracked tracked (filesNamed familyExtensions j) ↔
        ∀ g, firstTracked tracked (filesNamed familyExtensions j) = some g →
          g ∈ filesNamed impliedExtensions j) := by
  have first : path? tracked specifier f family = firstTracked tracked (filesNamed impliedExtensions j) :=
    path?_eq_firstTracked read written inside bare
  have found : (∃ g ∈ filesNamed impliedExtensions j, g ∈ tracked) ↔
      ∃ e ∈ impliedExtensions, j ++ e ∈ tracked ∨ indexIn j ++ e ∈ tracked := by
    simp only [filesNamed, List.mem_append, List.mem_map]
    constructor
    · rintro ⟨g, ⟨e, implied, rfl⟩ | ⟨e, implied, rfl⟩, known⟩
      · exact ⟨e, implied, .inl known⟩
      · exact ⟨e, implied, .inr known⟩
    · rintro ⟨e, implied, known | known⟩
      · exact ⟨_, .inl ⟨e, implied, rfl⟩, known⟩
      · exact ⟨_, .inr ⟨e, implied, rfl⟩, known⟩
  rw [first]
  exact ⟨rfl, exists_firstTracked_iff.trans found, firstTracked_implied_iff tracked j⟩

/-- The index file of a directory is taken where the file of that name has another extension. -/
theorem path?_without_extension_shadowed :
    let tracked := ["lib/rates.mjs", "lib/rates/index.ts"]
    (familyOf "" "src/main.js" = "ecmascript" ∧ isRelative "../lib/rates" = true ∧
      joined? "../lib/rates" "src/main.js" = some "lib/rates" ∧ (splitExtension "lib/rates").2 = "") ∧
      path? tracked "../lib/rates" "src/main.js" "" = some "lib/rates/index.ts" := by
  intro tracked
  have read : familyOf "" "src/main.js" = "ecmascript" := by decide
  have inside : joined? "../lib/rates" "src/main.js" = some "lib/rates" := by decide
  obtain ⟨first, -, -⟩ := @path?_without_extension tracked _ _ _ _ read (by decide) inside (by decide)
  exact ⟨⟨read, by decide, inside, by decide⟩, first.trans (by decide)⟩

/-- Beside the importing file the only file of the name has an extension that is not tried. -/
theorem module_unresolved :
    joined? "./rates" "src/main.js" = some "src/rates" ∧ (splitExtension "src/rates").2 = "" ∧
      firstTracked ["src/rates.mjs"] (filesNamed familyExtensions "src/rates") = some "src/rates.mjs" ∧
      path? ["src/rates.mjs"] "./rates" "src/main.js" "" = none := by
  decide

end ChangeLens.Resolution
