import ChangeLens.Proofs.Path.Extension
import ChangeLens.Resolution

/-! Imports by relative paths. A file that is written as seen from the importing file resolves to itself, by
whichever of the shared directories the way leads, as far as its family can tell it from other files. -/
namespace ChangeLens.Resolution

open Text ChangeLens.Path

variable {tracked : List String} {f g : String} {k : Nat}

def firstTracked (tracked paths : List String) : Option String := paths.find? (tracked.contains ·)

theorem firstTracked_append (tracked xs ys : List String) :
    firstTracked tracked (xs ++ ys) = (firstTracked tracked xs).or (firstTracked tracked ys) :=
  List.find?_append

theorem firstTracked_eq_none_iff {paths : List String} :
    firstTracked tracked paths = none ↔ ∀ p ∈ paths, p ∉ tracked := by
  simp [firstTracked]

theorem mem_of_firstTracked {paths : List String} {p : String} (first : firstTracked tracked paths = some p) :
    p ∈ paths ∧ p ∈ tracked :=
  ⟨List.mem_of_find?_eq_some first, by simpa using List.find?_some first⟩

theorem exists_firstTracked_iff {paths : List String} :
    (∃ p, firstTracked tracked paths = some p) ↔ ∃ p ∈ paths, p ∈ tracked := by
  constructor
  · rintro ⟨p, first⟩
    exact ⟨p, mem_of_firstTracked first⟩
  · rintro ⟨p, member, known⟩
    apply Option.ne_none_iff_exists'.mp
    intro none
    exact firstTracked_eq_none_iff.mp none p member known

theorem isRelative_relative (f g : String) (k : Nat) : isRelative (relative f g k) = true := by
  rw [relative, climb]
  split
  next =>
    have starts : startsWith "./" ("./" ++ joinWith "/" ((segments g).drop k)) = true :=
      startsWith_iff.mpr (by simp)
    simp [isRelative, starts]
  next further =>
    obtain ⟨n, more⟩ := Nat.exists_eq_succ_of_ne_zero further
    have starts : startsWith "../" (.join (List.replicate ((directories f).length - k) "../") ++
        joinWith "/" ((segments g).drop k)) = true :=
      startsWith_iff.mpr (by simp [more, List.replicate_succ])
    simp [isRelative, starts]

theorem joined?_relative (source : Normal f) (target : Normal g)
    (shared : k ≤ sharedDepth (directories f) (directories g)) : joined? (relative f g k) f = some g := by
  have inside : startsWith "/" g = false := Bool.eq_false_iff.mpr fun starts =>
    target.head?_ne_slash (startsWith_slash_iff.mp starts)
  have notAbove : startsWith "../" g = false := Bool.eq_false_iff.mpr fun starts => by
    obtain ⟨rest, split⟩ := startsWith_iff.mp starts
    have cut : g.toList = ['.', '.'] ++ '/' :: rest := split.symm
    have : ".." ∈ segments g := by simp [segments, splitAt, cut, List.splitOn_cons_eq_if_modifyHead]
    exact (target ".." this).2.2 rfl
  have notUp : g ≠ ".." := by
    rintro rfl
    exact (target ".." (by decide)).2.2 rfl
  have notHere : g ≠ "." := by
    rintro rfl
    exact (target "." (by decide)).2.1 rfl
  simp [joined?, normalize_join_relative source target shared, inside, notAbove, notUp, notHere]

theorem normal_stem (target : Normal g) (extended : (splitExtension g).2 ≠ "") :
    Normal (splitExtension g).1 := by
  obtain ⟨stem, name, split, -⟩ := segments_stem extended
  intro s member
  rw [split] at member
  rcases List.mem_append.mp member with member | member
  · exact target.directories_names s member
  · exact List.mem_singleton.mp member ▸ name

theorem expansions_ecmascript (g : String) : expansions g "ecmascript" =
    ((if (splitExtension g).2.isEmpty then [] else [g]) ++
      (if runtimeExtensions.contains (splitExtension g).2
        then [(splitExtension g).1 ++ ".ts", (splitExtension g).1 ++ ".tsx"] else []) ++
      impliedExtensions.map (g ++ ·) ++ impliedExtensions.map (g ++ "/index" ++ ·)).eraseDups := by
  simp only [expansions, beq_self_eq_true, if_true]

theorem expansions_ruby (g : String) :
    expansions g "ruby" = [if (splitExtension g).2 == ".rb" then g else g ++ ".rb"] := rfl

theorem expansions_c (g : String) : expansions g "c" = [g] := rfl

/-- Each path that is tried continues the path itself or its stem. -/
theorem exists_normal_of_mem_expansions (target : Normal g) {family p : String}
    (known : family ∈ ["ecmascript", "ruby", "c"]) (member : p ∈ expansions g family) :
    ∃ a b, p = a ++ b ∧ Normal a := by
  have whole (b : String) : ∃ a c, g ++ b = a ++ c ∧ Normal a := ⟨g, b, rfl, target⟩
  have bare : ∃ a c, g = a ++ c ∧ Normal a := ⟨g, "", String.append_empty.symm, target⟩
  simp only [List.mem_cons, List.not_mem_nil, or_false] at known
  rcases known with rfl | rfl | rfl
  · rw [expansions_ecmascript] at member
    simp only [List.mem_eraseDups, List.mem_append, List.mem_map] at member
    rcases member with ((written | typed) | ⟨e, -, rfl⟩) | ⟨e, -, rfl⟩
    · split at written
      next => simp at written
      next => exact List.mem_singleton.mp written ▸ bare
    · split at typed
      next runs =>
        have extended : (splitExtension g).2 ≠ "" := fun none => absurd (none ▸ runs) (by decide)
        have stem := normal_stem target extended
        simp only [List.mem_cons, List.not_mem_nil, or_false] at typed
        rcases typed with rfl | rfl
        · exact ⟨_, _, rfl, stem⟩
        · exact ⟨_, _, rfl, stem⟩
      next => simp at typed
    · exact whole e
    · exact String.append_assoc ▸ whole ("/index" ++ e)
  · rw [expansions_ruby, List.mem_singleton] at member
    split at member
    next => exact member ▸ bare
    next => exact member ▸ whole ".rb"
  · exact List.mem_singleton.mp (expansions_c g ▸ member) ▸ bare

theorem dropWhile_slash_eq_self {p : String} (unrooted : p.toList.head? ≠ some '/') :
    String.ofList (p.toList.dropWhile (· == '/')) = p := by
  have kept : p.toList.dropWhile (· == '/') = p.toList := by
    cases split : p.toList with
    | nil => rfl
    | cons c cs =>
      rw [split] at unrooted
      exact List.dropWhile_cons_of_neg (by simpa using unrooted)
  rw [kept, String.ofList_toList]

theorem head?_append_ne_slash {a : String} (unrooted : a.toList.head? ≠ some '/') (solid : a ≠ "") (b : String) :
    (a ++ b).toList.head? ≠ some '/' := by
  obtain ⟨c, cs, split⟩ := List.exists_cons_of_ne_nil (mt String.toList_eq_nil_iff.mp solid)
  simpa [split] using unrooted

theorem dropWhile_slash {a : String} (normal : Normal a) (b : String) :
    String.ofList ((a ++ b).toList.dropWhile (· == '/')) = a ++ b :=
  dropWhile_slash_eq_self (head?_append_ne_slash normal.head?_ne_slash normal.ne_empty b)

/-- Within the repository a path is seen from its root. -/
theorem head?_ne_slash_of_joined? {specifier : String} (inside : joined? specifier f = some g) :
    g.toList.head? ≠ some '/' := by
  simp only [joined?, Option.ite_none_left_eq_some, Bool.or_eq_true, not_or, Option.some.injEq] at inside
  obtain ⟨⟨-, unrooted⟩, same⟩ := inside
  rw [← same]
  split
  next => simp
  next => exact mt startsWith_slash_iff.mpr unrooted

theorem beq_python_of_mem {family : String} (known : family ∈ ["ecmascript", "ruby", "c"]) :
    (family == "python") = false := by
  rw [beq_eq_false_iff_ne]
  rintro rfl
  exact absurd known (by decide)

/-- Where an import joins to a path within the repository, just the expansions of that path are tried. -/
theorem paths_of_joined? {family specifier : String} (known : familyOf family f ∈ ["ecmascript", "ruby", "c"])
    (written : isRelative specifier = true) (inside : joined? specifier f = some g) :
    paths specifier f family =
      (expansions g (familyOf family f)).map fun p => .ofList (p.toList.dropWhile (· == '/')) := by
  simp only [paths, beq_python_of_mem known, List.contains_eq_mem, known, written, inside, decide_true, Bool.and_self,
    if_true, Option.map_some, Option.getD_some, Bool.false_eq_true, if_false]

/-- Where a file is imported by a relative path, just the paths it may be expanded to are tried. -/
theorem paths_relative {family : String} (source : Normal f) (target : Normal g)
    (shared : k ≤ sharedDepth (directories f) (directories g)) (known : family ∈ ["ecmascript", "ruby", "c"]) :
    paths (relative f g k) f family = expansions g family := by
  have given : familyOf family f = family := by
    rw [familyOf, if_neg]
    rintro empty
    rw [String.isEmpty_iff.mp empty] at known
    exact absurd known (by decide)
  rw [paths_of_joined? (given.symm ▸ known) (isRelative_relative f g k) (joined?_relative source target shared), given]
  refine (List.map_congr_left fun p member => ?_).trans (List.map_id _)
  obtain ⟨a, b, rfl, normal⟩ := exists_normal_of_mem_expansions target known member
  exact dropWhile_slash normal b

theorem find?_of_earlier {candidates : List String} (known : g ∈ tracked) (member : g ∈ candidates)
    (earlier : ∀ p ∈ candidates.takeWhile (· != g), p ∉ tracked) :
    candidates.find? (tracked.contains ·) = some g := by
  obtain ⟨before, after, split, fresh⟩ := List.eq_append_cons_of_mem member
  have others : ∀ p ∈ before, (p != g) = true := fun p here => bne_iff_ne.mpr fun same => fresh (same ▸ here)
  have first : candidates.takeWhile (· != g) = before := by
    rw [split, List.takeWhile_append_of_pos others]
    simp
  exact List.find?_eq_some_iff_append.mpr ⟨by simpa using known, before, after, split,
    fun p here => by simpa using earlier p (first ▸ here)⟩

section Paths

variable (source : Normal f) (target : Normal g) (shared : k ≤ sharedDepth (directories f) (directories g))
include source target shared

theorem path?_relative_of_first {family : String} (read : family ∈ ["ecmascript", "ruby", "c"])
    (known : g ∈ tracked) (first : (expansions g family).head? = some g) :
    path? tracked (relative f g k) f family = some g := by
  obtain ⟨rest, tried⟩ := List.head?_eq_some_iff.mp first
  rw [path?, paths_relative source target shared read, tried]
  exact List.find?_cons_of_pos (by simpa using known)

theorem path?_relative_of_earlier {family : String} (read : family ∈ ["ecmascript", "ruby", "c"])
    {meant : String} (known : meant ∈ tracked) (member : meant ∈ expansions g family)
    (earlier : ∀ p ∈ (expansions g family).takeWhile (· != meant), p ∉ tracked) :
    path? tracked (relative f g k) f family = some meant := by
  rw [path?, paths_relative source target shared read]
  exact find?_of_earlier known member earlier

end Paths

theorem head?_expansions_ecmascript (extended : (splitExtension g).2 ≠ "") :
    (expansions g "ecmascript").head? = some g := by
  have written : (splitExtension g).2.isEmpty = false := by simpa using extended
  rw [expansions_ecmascript, written, if_neg Bool.false_ne_true, List.append_assoc, List.append_assoc,
    List.singleton_append, List.eraseDups_cons, List.head?_cons]

theorem mem_expansions_stem (implied : (splitExtension g).2 ∈ impliedExtensions) :
    g ∈ expansions (splitExtension g).1 "ecmascript" := by
  rw [expansions_ecmascript, List.mem_eraseDups]
  refine List.mem_append_left _ (List.mem_append_right _ (List.mem_map.mpr ⟨_, implied, ?_⟩))
  exact splitExtension_append g

theorem directories_stem (extended : (splitExtension g).2 ≠ "") :
    directories (splitExtension g).1 = directories g := by
  obtain ⟨stem, -, shortened, -⟩ := segments_stem extended
  rw [directories, shortened, List.dropLast_concat]

/-- Leaving out the extension of the file leaves out the end of the path that leads to it. -/
theorem relative_stem (extended : (splitExtension g).2 ≠ "") (within : k ≤ (directories g).length) :
    relative f (splitExtension g).1 k ++ (splitExtension g).2 = relative f g k := by
  obtain ⟨stem, -, shortened, whole⟩ := segments_stem extended
  rw [relative, relative, shortened, whole, List.drop_append_of_le_length within,
    List.drop_append_of_le_length within, String.append_assoc, joinWith_concat_append]

/-- The specifier of a module that is found by `names` below the directory for which the dots stand. -/
def dotted (dots : Nat) (names : List String) : String := .ofList (List.replicate dots '.') ++ joinWith "." names

/-- A name of a module, which no dot can divide. -/
def IsModuleName (name : String) : Prop := name ≠ "" ∧ '.' ∉ name.toList

instance (name : String) : Decidable (IsModuleName name) := inferInstanceAs (Decidable (_ ∧ _))

theorem toList_dotted (dots : Nat) (names : List String) :
    (dotted dots names).toList = List.replicate dots '.' ++ (joinWith "." names).toList := by
  simp [dotted]

theorem head?_joinWith_ne_dot {names : List String} (modules : ∀ n ∈ names, IsModuleName n) (nonempty : names ≠ []) :
    ∃ c cs, (joinWith "." names).toList = c :: cs ∧ c ≠ '.' := by
  obtain ⟨n, rest, rfl⟩ := List.exists_cons_of_ne_nil nonempty
  obtain ⟨solid, plain⟩ := modules n (.head _)
  obtain ⟨c, cs, split⟩ := List.exists_cons_of_ne_nil (mt String.toList_eq_nil_iff.mp solid)
  have other : c ≠ '.' := fun same => plain (split ▸ same ▸ .head _)
  cases rest with
  | nil => exact ⟨c, cs, by simp [joinWith, split], other⟩
  | cons m rest => exact ⟨c, cs ++ ('.' :: (joinWith "." (m :: rest)).toList), by simp [joinWith, split], other⟩

theorem directoryParts_eq (source : Normal f) :
    (if (directory f).isEmpty then [] else splitAt '/' (directory f)) = directories f := by
  rw [directory_eq source]
  cases above : directories f with
  | nil => rfl
  | cons d ds =>
    have names : ∀ s ∈ d :: ds, IsName s := above ▸ source.directories_names
    have solid := (normal_joinWith names (List.cons_ne_nil d ds)).ne_empty
    rw [if_neg (mt String.isEmpty_iff.mp solid)]
    exact segments_joinWith (fun s member => (names s member).1) (List.cons_ne_nil d ds)

/-- The directories above a file as its path states them, the outermost first. -/
def parents (f : String) : List String := if (directory f).isEmpty then [] else splitAt '/' (directory f)

/-- Each dot but the first takes one directory back. -/
theorem dottedBase?_eq {names : List String} (modules : ∀ n ∈ names, IsModuleName n) {dots : Nat} (least : 1 ≤ dots)
    (within : dots ≤ (parents f).length + 1) : dottedBase? (dotted dots names) f =
      some (joinWith "/" ((parents f).take ((parents f).length + 1 - dots) ++ names)) := by
  have plain : ∀ c ∈ (joinWith "." names).toList.head?, (c == '.') = false := by
    by_cases empty : names = []
    · simp [empty, joinWith]
    · obtain ⟨c, cs, split, other⟩ := head?_joinWith_ne_dot modules empty
      simpa [split] using other
  have count : ((dotted dots names).toList.takeWhile (· == '.')).length = dots := by
    rw [toList_dotted, List.takeWhile_append_of_pos (by simp)]
    cases split : (joinWith "." names).toList with
    | nil => simp
    | cons c cs =>
      rw [split] at plain
      rw [List.takeWhile_cons_of_neg (by simp [plain c rfl])]
      simp
  have rest : (dotted dots names).toList.drop dots = (joinWith "." names).toList := by
    rw [toList_dotted, List.drop_left' (List.length_replicate ..)]
  have cut : (if (joinWith "." names).toList.isEmpty then []
      else ((joinWith "." names).toList.splitOn '.').map String.ofList) = names := by
    by_cases empty : names = []
    · simp [empty, joinWith]
    · obtain ⟨c, cs, split, -⟩ := head?_joinWith_ne_dot modules empty
      have solid : ¬(joinWith "." names).toList.isEmpty = true := by simp [split]
      rw [if_neg solid]
      exact splitAt_joinWith (fun n member => (modules n member).2) empty
  have found : ¬(dots = 0 ∨ dots - 1 > (parents f).length) := by omega
  have levels : (parents f).length - (dots - 1) = (parents f).length + 1 - dots := by omega
  unfold parents at found levels ⊢
  simp only [dottedBase?, count, rest, if_neg found, cut, levels]

theorem dottedBase?_dotted {names : List String} (source : Normal f) (modules : ∀ n ∈ names, IsModuleName n)
    (within : k ≤ (directories f).length) :
    dottedBase? (dotted ((directories f).length - k + 1) names) f =
      some (joinWith "/" ((directories f).take k ++ names)) := by
  have above : parents f = directories f := directoryParts_eq source
  have levels : (parents f).length + 1 - ((directories f).length - k + 1) = k := by
    rw [above]
    omega
  rw [dottedBase?_eq modules (by omega) (by rw [above]; omega), levels, above]

theorem path?_dotted {names : List String} (source : Normal f) (modules : ∀ n ∈ names, IsModuleName n)
    (nonempty : names ≠ []) (within : k ≤ (directories f).length)
    (known : joinWith "/" ((directories f).take k ++ names) ++ ".py" ∈ tracked) :
    path? tracked (dotted ((directories f).length - k + 1) names) f "python" =
      some (joinWith "/" ((directories f).take k ++ names) ++ ".py") := by
  obtain ⟨c, cs, split, other⟩ := head?_joinWith_ne_dot modules nonempty
  have named : onlyDots (dotted ((directories f).length - k + 1) names) = false := by
    simp [onlyDots, toList_dotted, split, other]
  have solid : ¬(joinWith "/" ((directories f).take k ++ names)).isEmpty = true := by
    obtain ⟨n, member⟩ := List.exists_mem_of_ne_nil names nonempty
    exact mt String.isEmpty_iff.mp
      (joinWith_ne_empty (List.mem_append_right _ member) (modules n member).1 (by decide))
  have given : familyOf "python" f = "python" := rfl
  simp only [path?, paths, given, dottedBase?_dotted source modules within, dottedPaths, named, solid,
    beq_self_eq_true, if_true, Option.map_some, Option.getD_some, Bool.or_self, Bool.false_eq_true, if_false]
  exact List.find?_cons_of_pos (by simpa using known)

/-- Written as seen from another file, a tracked file is found again. Where its extension is left out it is
found unless a path that is tried before it is tracked too. -/
theorem path?_relative_inverse (source : Normal f) (target : Normal g) (known : g ∈ tracked)
    (shared : k ≤ sharedDepth (directories f) (directories g)) :
    path? tracked (relative f g k) f "c" = some g ∧
      ((splitExtension g).2 = ".rb" → path? tracked (relative f g k) f "ruby" = some g) ∧
      ((splitExtension g).2 ≠ "" → path? tracked (relative f g k) f "ecmascript" = some g) ∧
      ((splitExtension g).2 ∈ impliedExtensions → ∃ short,
        short ++ (splitExtension g).2 = relative f g k ∧
        ((∀ p ∈ (expansions (splitExtension g).1 "ecmascript").takeWhile (· != g), p ∉ tracked) →
          path? tracked short f "ecmascript" = some g)) ∧
      ∀ names, names ≠ [] → (∀ n ∈ names, IsModuleName n) →
        g = joinWith "/" ((directories f).take k ++ names) ++ ".py" →
        path? tracked (dotted ((directories f).length - k + 1) names) f "python" = some g := by
  obtain ⟨-, left, right⟩ := take_eq_of_le_sharedDepth shared
  have written {family : String} (read : family ∈ ["ecmascript", "ruby", "c"]) :=
    path?_relative_of_first source target shared read known
  refine ⟨written (by decide) rfl, fun ruby => written (by decide) ?_,
    fun extended => written (by decide) (head?_expansions_ecmascript extended), fun implied => ?_,
    fun names nonempty modules spelled => ?_⟩
  · simp [expansions_ruby, ruby]
  · have extended : (splitExtension g).2 ≠ "" := fun none => absurd (none ▸ implied) (by decide)
    have sharedStem : k ≤ sharedDepth (directories f) (directories (splitExtension g).1) := by
      rwa [directories_stem extended]
    exact ⟨_, relative_stem extended right, path?_relative_of_earlier source (normal_stem target extended)
      sharedStem (by decide) known (mem_expansions_stem implied)⟩
  · have found := path?_dotted source modules nonempty left (spelled ▸ known)
    exact found.trans (congrArg some spelled.symm)

/-- From one directory above, a name with two dots is found with its extension and without it, and a module of
another package by two dots. -/
theorem path?_relative_inverse_neighbours :
    let tracked := ["src/lib/a.b.tsx", "src/lib/a.b/index.ts", "src/lib/io.py"]
    (Normal "src/app/main.ts" ∧ Normal "src/lib/a.b.tsx" ∧ Normal "src/lib/io.py") ∧
      path? tracked "../lib/a.b.tsx" "src/app/main.ts" "ecmascript" = some "src/lib/a.b.tsx" ∧
      path? tracked "../lib/a.b" "src/app/main.ts" "ecmascript" = some "src/lib/a.b.tsx" ∧
      path? tracked "..lib.io" "src/app/main.ts" "python" = some "src/lib/io.py" := by
  intro tracked
  have source : Normal "src/app/main.ts" := by decide
  have sheet : Normal "src/lib/a.b.tsx" := by decide
  have script : Normal "src/lib/io.py" := by decide
  obtain ⟨-, -, long, short, -⟩ := @path?_relative_inverse tracked _ _ 1 source sheet (by decide) (by decide)
  obtain ⟨-, -, -, -, dots⟩ := @path?_relative_inverse tracked _ _ 1 source script (by decide) (by decide)
  obtain ⟨r, cut, found⟩ := short (by decide)
  have bare : r = "../lib/a.b" := by
    have whole : relative "src/app/main.ts" "src/lib/a.b.tsx" 1 =
        "../lib/a.b" ++ (splitExtension "src/lib/a.b.tsx").2 := by decide
    exact String.append_left_inj _ |>.mp (cut.trans whole)
  refine ⟨⟨source, sheet, script⟩, long (by decide), bare ▸ found (by decide), ?_⟩
  exact dots ["lib", "io"] (by decide) (by decide) (by decide)

end ChangeLens.Resolution
