import ChangeLens.Proofs.Resolution.Relative
import Mathlib.Data.List.Basic

/-! Imports of names from a package given by dots alone. A name that is a module or a package beside the importing
one leads there. A name of neither kind is defined in the file of the package, but leads to it only where no name of
the import has a file of its own; else it leads nowhere. -/
namespace ChangeLens.Resolution

open Text ChangeLens.Path

variable {tracked : List String} {f : String} {dots : Nat}

/-- The directory for which some dots stand: one for that of the file, each further one for the directory above. -/
def above (f : String) (dots : Nat) : List String := (parents f).take ((parents f).length + 1 - dots)

def packageFile (ds : List String) : String := joinWith "/" (ds ++ ["__init__.py"])

/-- The files that a name can have in a directory, as a module or as a package. -/
def moduleFiles (ds : List String) (name : String) : List String :=
  [joinWith "/" (ds ++ [name ++ ".py"]), packageFile (ds ++ [name])]

def sibling? (tracked ds : List String) (name : String) : Option String := firstTracked tracked (moduleFiles ds name)

/-- Some target has the name among those that are taken from it. -/
def Attributed (found : List (String × List String)) (name target : String) : Prop :=
  ∃ names, (target, names) ∈ found ∧ name ∈ names

theorem directory_isPrefix (path : String) : (directory path).toList <+: path.toList := by
  have taken (n : Nat) : path.toList.take n <+: path.toList := List.take_prefix n _
  unfold directory
  dsimp only
  split
  next => simpa using taken _
  next => simpa using (dropEndWhile_isPrefix _ _).trans (taken _)

theorem head_splitAt_ne_empty {path p : String} {ps : List String} (unrooted : path.toList.head? ≠ some '/')
    (solid : path ≠ "") (split : splitAt '/' path = p :: ps) : p ≠ "" := by
  rintro rfl
  have whole := joinWith_splitAt '/' path
  rw [split] at whole
  cases ps with
  | nil => exact solid (by simpa [joinWith] using whole.symm)
  | cons q qs =>
    apply unrooted
    rw [← whole]
    simp [joinWith]

/-- Such a path has no directory without a name at the front. -/
theorem parents_cases (unrooted : startsWith "/" f = false) :
    parents f = [] ∨ ∃ p ps, parents f = p :: ps ∧ p ≠ "" := by
  unfold parents
  by_cases empty : (directory f).isEmpty = true
  · exact .inl (if_pos empty)
  · obtain ⟨p, ps, split⟩ := List.exists_cons_of_ne_nil (segments_ne_nil (directory f))
    have inside : (directory f).toList.head? ≠ some '/' := by
      intro slash
      obtain ⟨rest, whole⟩ := directory_isPrefix f
      obtain ⟨cs, front⟩ := List.head?_eq_some_iff.mp slash
      have starts : f.toList.head? = some '/' := by simp [← whole, front]
      simp [startsWith_slash_iff.mpr starts] at unrooted
    rw [if_neg empty]
    exact .inr ⟨p, ps, split, head_splitAt_ne_empty inside (mt String.isEmpty_iff.mpr empty) split⟩

theorem joinWith_above_eq_empty (unrooted : startsWith "/" f = false) (dots : Nat) :
    joinWith "/" (above f dots) = "" ↔ above f dots = [] := by
  refine ⟨fun none => ?_, fun none => by rw [none]; rfl⟩
  unfold above at none ⊢
  rcases parents_cases unrooted with root | ⟨p, ps, split, solid⟩
  · simp [root]
  · rw [split] at none ⊢
    cases levels : (p :: ps).length + 1 - dots with
    | zero => rfl
    | succ n =>
      rw [levels, List.take_succ_cons] at none
      exact absurd none (joinWith_ne_empty (List.mem_cons_self ..) solid (by decide))

theorem joinWith_concat_slash {ds : List String} (nonempty : ds ≠ []) (name : String) :
    joinWith "/" ds ++ ("/" ++ name) = joinWith "/" (ds ++ [name]) := by
  simp [joinWith, String.intercalate_append_of_ne_nil nonempty, String.append_assoc]

theorem onlyDots_dots (dots : Nat) : onlyDots (dotted dots []) = true := by
  simp [onlyDots, toList_dotted, joinWith]

theorem path?_dots (unrooted : startsWith "/" f = false) (least : 1 ≤ dots)
    (within : dots ≤ (parents f).length + 1) : path? tracked (dotted dots []) f "python" =
      if packageFile (above f dots) ∈ tracked then some (packageFile (above f dots)) else none := by
  have base : dottedBase? (dotted dots []) f = some (joinWith "/" (above f dots)) := by
    simpa [above] using @dottedBase?_eq f [] (by simp) dots least within
  have package : (if joinWith "/" (above f dots) = "" then "__init__.py"
      else joinWith "/" (above f dots) ++ "/__init__.py") = packageFile (above f dots) := by
    unfold packageFile
    by_cases root : above f dots = []
    · simp [root, joinWith]
    · have solid := mt (joinWith_above_eq_empty unrooted dots).mp root
      rw [if_neg solid, ← joinWith_concat_slash root]
      rfl
  have tried : paths (dotted dots []) f "python" = [packageFile (above f dots)] := by
    simp [paths, familyOf, base, dottedPaths, onlyDots_dots, package]
  by_cases known : packageFile (above f dots) ∈ tracked <;> simp [path?, tried, known]

theorem path?_sibling {name : String} (module : IsModuleName name) (least : 1 ≤ dots)
    (within : dots ≤ (parents f).length + 1) :
    path? tracked (dotted dots [] ++ name) f "python" = sibling? tracked (above f dots) name := by
  have spelled : dotted dots [] ++ name = dotted dots [name] := by
    simp [dotted, joinWith]
  have base : dottedBase? (dotted dots [name]) f = some (joinWith "/" (above f dots ++ [name])) :=
    dottedBase?_eq (by simpa using module) least within
  have solid : joinWith "/" (above f dots ++ [name]) ≠ "" :=
    joinWith_ne_empty (by simp) module.1 (by decide)
  have named : onlyDots (dotted dots [name]) = false := by
    obtain ⟨c, cs, split⟩ := List.exists_cons_of_ne_nil (mt String.toList_eq_nil_iff.mp module.1)
    have other : c ≠ '.' := fun dot => module.2 (by simp [split, dot])
    simp [onlyDots, toList_dotted, joinWith, split, other]
  have package : joinWith "/" (above f dots ++ [name]) ++ "/__init__.py" =
      packageFile (above f dots ++ [name]) := joinWith_concat_slash (by simp) "__init__.py"
  have tried : paths (dotted dots [name]) f "python" = moduleFiles (above f dots) name := by
    simp [paths, familyOf, base, dottedPaths, named, solid, moduleFiles, package, joinWith_concat_append]
  rw [spelled, path?, tried]
  rfl

def foundBeside (tracked ds symbols : List String) : List (String × List String) :=
  symbols.filterMap fun name => (sibling? tracked ds name).map fun target => (target, [name])

variable {ds symbols : List String}

theorem mem_foundBeside {target : String} {names : List String} :
    (target, names) ∈ foundBeside tracked ds symbols ↔
      ∃ name ∈ symbols, sibling? tracked ds name = some target ∧ names = [name] := by
  simp only [foundBeside, List.mem_filterMap, Option.map_eq_some_iff, Prod.mk.injEq]
  constructor
  · rintro ⟨name, member, found, sibling, rfl, rfl⟩
    exact ⟨name, member, sibling, rfl⟩
  · rintro ⟨name, member, sibling, rfl⟩
    exact ⟨name, member, target, sibling, rfl, rfl⟩

theorem foundBeside_eq_nil_iff :
    foundBeside tracked ds symbols = [] ↔ ∀ name ∈ symbols, sibling? tracked ds name = none := by
  simp [foundBeside, List.filterMap_eq_nil_iff]

/-- A name without a file of its own is taken from no file beside the importing one. -/
theorem not_attributed_foundBeside {name target : String} (missing : sibling? tracked ds name = none) :
    ¬Attributed (foundBeside tracked ds symbols) name target := by
  rintro ⟨names, member, taken⟩
  obtain ⟨other, -, sibling, single⟩ := mem_foundBeside.mp member
  rw [single, List.mem_singleton] at taken
  simp [← taken, missing] at sibling

theorem targets_dots (unrooted : startsWith "/" f = false) (least : 1 ≤ dots)
    (within : dots ≤ (parents f).length + 1) (nonempty : symbols ≠ [])
    (modules : ∀ name ∈ symbols, IsModuleName name) (package : packageFile (above f dots) ∈ tracked) :
    targets tracked ⟨dotted dots [], symbols⟩ f "python" =
      if foundBeside tracked (above f dots) symbols = [] then [(packageFile (above f dots), symbols)]
      else foundBeside tracked (above f dots) symbols := by
  have solid : (dotted dots []).isEmpty = false := by
    rw [Bool.eq_false_iff, ne_eq, String.isEmpty_iff, ← String.toList_eq_nil_iff, toList_dotted]
    simp [joinWith]
    omega
  have names : namesSiblings ⟨dotted dots [], symbols⟩ "python" = true := by
    simp [namesSiblings, solid, onlyDots_dots, nonempty]
  have beside : siblings tracked ⟨dotted dots [], symbols⟩ f "python" = foundBeside tracked (above f dots) symbols := by
    apply List.filterMap_congr
    intro name member
    rw [path?_sibling (modules name member) least within]
  unfold targets
  dsimp only
  rw [if_pos names, beside, path?_dots unrooted least within, if_pos package]
  by_cases none : foundBeside tracked (above f dots) symbols = [] <;> simp [none]

/-- Of the names that are imported from a package by dots, each that has a tracked file beside the importing one leads
there. If none has, all lead to the file of the package. The names without a file of their own all lead there just if
there are no others, or there are none of them. -/
theorem targets_siblings (unrooted : startsWith "/" f = false) (least : 1 ≤ dots)
    (within : dots ≤ (parents f).length + 1) (nonempty : symbols ≠ [])
    (modules : ∀ name ∈ symbols, IsModuleName name) (package : packageFile (above f dots) ∈ tracked) :
    let found := targets tracked ⟨dotted dots [], symbols⟩ f "python"
    let sibling := sibling? tracked (above f dots)
    (∀ name ∈ symbols, ∀ target, sibling name = some target → (target, [name]) ∈ found) ∧
      ((∀ name ∈ symbols, sibling name = none) → found = [(packageFile (above f dots), symbols)]) ∧
      ((∀ name ∈ symbols, sibling name = none → Attributed found name (packageFile (above f dots))) ↔
        (∀ name ∈ symbols, sibling name ≠ none) ∨ ∀ name ∈ symbols, sibling name = none) := by
  intro found sibling
  have equal := targets_dots unrooted least within nonempty modules package
  have alone : (∀ name ∈ symbols, sibling name = none) → found = [(packageFile (above f dots), symbols)] := by
    intro none
    exact equal.trans (if_pos (foundBeside_eq_nil_iff.mpr none))
  have besides : foundBeside tracked (above f dots) symbols ≠ [] →
      found = foundBeside tracked (above f dots) symbols := by
    intro some
    exact equal.trans (if_neg some)
  refine ⟨?_, alone, ?_⟩
  · intro name member target here
    have beside : (target, [name]) ∈ foundBeside tracked (above f dots) symbols :=
      mem_foundBeside.mpr ⟨name, member, here, rfl⟩
    rw [besides (List.ne_nil_of_mem beside)]
    exact beside
  constructor
  · intro attributed
    by_cases none : ∀ name ∈ symbols, sibling name = none
    · exact .inr none
    · refine .inl fun name member missing => ?_
      have here := attributed name member missing
      rw [besides (mt foundBeside_eq_nil_iff.mp none)] at here
      exact not_attributed_foundBeside missing here
  · rintro (all | none) name member missing
    · exact absurd missing (all name member)
    · rw [alone none]
      exact ⟨symbols, List.mem_singleton_self _, member⟩

/-- From one package below, a module and a package beside that one are found; what the package defines itself leads to
its file if it is imported alone. -/
theorem targets_siblings_store :
    let tracked := ["pkg/__init__.py", "pkg/io/__init__.py", "pkg/store.py", "pkg/web/main.py"]
    (1 ≤ 2 ∧ 2 ≤ (parents "pkg/web/main.py").length + 1 ∧ packageFile (above "pkg/web/main.py" 2) ∈ tracked) ∧
      ("pkg/store.py", ["store"]) ∈ targets tracked ⟨"..", ["store", "io"]⟩ "pkg/web/main.py" "python" ∧
      ("pkg/io/__init__.py", ["io"]) ∈ targets tracked ⟨"..", ["store", "io"]⟩ "pkg/web/main.py" "python" ∧
      targets tracked ⟨"..", ["VERSION"]⟩ "pkg/web/main.py" "python" = [("pkg/__init__.py", ["VERSION"])] := by
  intro tracked
  have within : 2 ≤ (parents "pkg/web/main.py").length + 1 := by decide
  have package : packageFile (above "pkg/web/main.py" 2) ∈ tracked := by decide
  obtain ⟨beside, -, -⟩ := @targets_siblings tracked _ 2 ["store", "io"] (by decide) (by decide) within (by decide)
    (by decide) package
  obtain ⟨-, alone, -⟩ := @targets_siblings tracked _ 2 ["VERSION"] (by decide) (by decide) within (by decide)
    (by decide) package
  refine ⟨⟨by decide, within, package⟩, ?_, ?_, alone (by decide)⟩
  · exact beside "store" (by decide) _ (by decide)
  · exact beside "io" (by decide) _ (by decide)

/-- Imported together with a module, what the package defines leads nowhere. -/
theorem package_name_lost :
    let tracked := ["pkg/__init__.py", "pkg/main.py", "pkg/store.py"]
    packageFile (above "pkg/main.py" 1) = "pkg/__init__.py" ∧ "pkg/__init__.py" ∈ tracked ∧
      sibling? tracked (above "pkg/main.py" 1) "VERSION" = none ∧
      targets tracked ⟨".", ["store", "VERSION"]⟩ "pkg/main.py" "python" = [("pkg/store.py", ["store"])] ∧
      ¬Attributed (targets tracked ⟨".", ["store", "VERSION"]⟩ "pkg/main.py" "python") "VERSION" "pkg/__init__.py" := by
  intro tracked
  have found : targets tracked ⟨".", ["store", "VERSION"]⟩ "pkg/main.py" "python" = [("pkg/store.py", ["store"])] := by
    decide
  refine ⟨by decide, by decide, by decide, found, ?_⟩
  rw [found]
  simp [Attributed]

end ChangeLens.Resolution
