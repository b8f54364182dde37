import ChangeLens.Path
import ChangeLens.Proofs.Text.Pieces

/-! Paths as lists of segments. On the paths of a repository, taking the directory, joining and following `.` and
`..` are operations on such lists: a path that goes up and down again leads to where its names say. -/
namespace ChangeLens.Path

open Text

def segments (path : String) : List String := splitAt '/' path

/-- What can stand between two slashes. -/
def IsSegment (s : String) : Prop := '/' ∉ s.toList ∧ s ≠ ""

/-- A segment that goes down, to a file or a directory of its name. -/
def IsName (s : String) : Prop := IsSegment s ∧ s ≠ "." ∧ s ≠ ".."

/-- A path as a repository lists it. -/
def Normal (path : String) : Prop := ∀ s ∈ segments path, IsName s

instance (s : String) : Decidable (IsSegment s) := inferInstanceAs (Decidable (_ ∧ _))
instance (s : String) : Decidable (IsName s) := inferInstanceAs (Decidable (_ ∧ _))
instance (path : String) : Decidable (Normal path) := inferInstanceAs (Decidable (∀ s ∈ segments path, IsName s))

/-- The directories above a file, the outermost first. -/
def directories (path : String) : List String := (segments path).dropLast

theorem joinWith_segments (path : String) : joinWith "/" (segments path) = path := joinWith_splitAt '/' path

theorem segments_joinWith {ss : List String} (are : ∀ s ∈ ss, IsSegment s) (nonempty : ss ≠ []) :
    segments (joinWith "/" ss) = ss := splitAt_joinWith (fun s member => (are s member).1) nonempty

theorem segments_ne_nil (path : String) : segments path ≠ [] := by simp [segments, splitAt]

theorem normal_joinWith {ss : List String} (names : ∀ s ∈ ss, IsName s) (nonempty : ss ≠ []) :
    Normal (joinWith "/" ss) := by
  rwa [Normal, segments_joinWith (fun s member => (names s member).1) nonempty]

/-- A path is a bare name or can be cut behind its directories. -/
theorem segments_cases (path : String) :
    ('/' ∉ path.toList ∧ segments path = [path]) ∨
      ∃ before name, path.toList = before ++ '/' :: name ∧ '/' ∉ name ∧
        segments path = segments (.ofList before) ++ [.ofList name] := by
  rcases cutLast_cases '/' path.toList with bare | ⟨before, name, split, fresh⟩
  · exact .inl ⟨bare, by simp [segments, splitAt, List.splitOn_eq_singleton bare]⟩
  · refine .inr ⟨before, name, split, fresh, ?_⟩
    simp [segments, splitAt, split, List.splitOn_append_cons_self, List.splitOn_eq_singleton fresh]

theorem head?_joinWith_ne_slash {ss : List String} (are : ∀ s ∈ ss, IsSegment s) :
    (joinWith "/" ss).toList.head? ≠ some '/' := by
  cases ss with
  | nil => simp [joinWith]
  | cons s rest =>
    obtain ⟨flat, nonempty⟩ := are s (.head _)
    obtain ⟨c, cs, split⟩ := List.exists_cons_of_ne_nil (mt String.toList_eq_nil_iff.mp nonempty)
    have first : (joinWith "/" (s :: rest)).toList.head? = some c := by
      cases rest <;> simp [joinWith, String.intercalate_cons_cons, split]
    rw [first]
    rintro ⟨⟩
    exact flat (split ▸ .head _)

theorem startsWith_slash_iff {path : String} :
    startsWith "/" path = true ↔ path.toList.head? = some '/' := by
  rw [startsWith_iff, List.head?_eq_some_iff]
  exact exists_congr fun rest => eq_comm

namespace Normal

variable {path : String}

theorem head?_ne_slash (normal : Normal path) : path.toList.head? ≠ some '/' :=
  joinWith_segments path ▸ head?_joinWith_ne_slash fun s member => (normal s member).1

theorem getLast?_ne_slash (normal : Normal path) : path.toList.getLast? ≠ some '/' := by
  intro last
  obtain ⟨init, split⟩ := List.getLast?_eq_some_iff.mp last
  have : "" ∈ segments path := by simp [segments, splitAt, split, List.splitOn_append_cons_self]
  exact (normal "" this).1.2 rfl

theorem ne_empty (normal : Normal path) : path ≠ "" := by
  rintro rfl
  exact (normal "" (by decide)).1.2 rfl

theorem directories_names (normal : Normal path) : ∀ s ∈ directories path, IsName s := fun s member =>
  normal s (List.dropLast_subset _ member)

end Normal

/-- The directory of a file is the path of all directories above it. -/
theorem directory_eq {path : String} (normal : Normal path) :
    directory path = joinWith "/" (directories path) := by
  rcases segments_cases path with ⟨bare, single⟩ | ⟨before, name, split, fresh, cut⟩
  · simp [directory, lastSegment, cutLast_of_notMem bare, directories, single, joinWith]
  · have above : Normal (.ofList before) := fun s member => normal s (by simp [cut, member])
    have outside : joinWith "/" (directories path) = .ofList before := by
      rw [directories, cut, List.dropLast_concat, joinWith_segments]
    have head : path.toList.take (path.toList.length - (lastSegment path.toList).length) =
        before ++ ['/'] := by
      have length : (before ++ '/' :: name).length - name.length = (before ++ ['/']).length := by
        simp only [List.length_append, List.length_cons, List.length_nil]
        omega
      rw [lastSegment, split, cutLast_append before fresh, length]
      exact List.append_cons before '/' name ▸ List.take_left
    have first := above.head?_ne_slash
    have last := above.getLast?_ne_slash
    rw [String.toList_ofList] at first last
    have someName : (before ++ ['/']).all (· == '/') = false := by
      cases before with
      | nil => exact absurd rfl above.ne_empty
      | cons c rest =>
        have : ¬c = '/' := by simpa using first
        simp [this]
    rw [outside, directory, head, someName]
    refine congrArg String.ofList (dropEndWhile_concat rfl fun d found => beq_false_of_ne ?_)
    rintro rfl
    exact last found

/-- A path that does not begin at the root continues the path of its directory. -/
theorem join_joinWith {ds ss : List String} (names : ∀ s ∈ ds, IsName s) (are : ∀ s ∈ ss, IsSegment s)
    (nonempty : ss ≠ []) : join (joinWith "/" ds) (joinWith "/" ss) = joinWith "/" (ds ++ ss) := by
  have inside : startsWith "/" (joinWith "/" ss) = false := Bool.eq_false_iff.mpr fun starts =>
    head?_joinWith_ne_slash are (startsWith_slash_iff.mp starts)
  cases ds with
  | nil => simp [join, joinWith]
  | cons d ds =>
    have base := normal_joinWith names (List.cons_ne_nil d ds)
    have unended : ((joinWith "/" (d :: ds)).isEmpty ||
        (joinWith "/" (d :: ds)).toList.getLast? == some '/') = false := by
      simp [base.ne_empty, base.getLast?_ne_slash]
    rw [join, inside, unended]
    exact (String.intercalate_append_of_ne_nil (List.cons_ne_nil d ds) nonempty).symm

theorem foldl_step_names (kept : List String) {names : List String} (are : ∀ s ∈ names, IsName s) :
    names.foldl (step false) kept = names.reverse ++ kept := by
  induction names generalizing kept with
  | nil => rfl
  | cons s names ih =>
    obtain ⟨⟨-, empty⟩, here, above⟩ := are s (.head _)
    have pushed : step false kept s = s :: kept := by simp [step, empty, here, above]
    rw [List.foldl_cons, pushed, ih _ fun t member => are t (.tail _ member)]
    simp

theorem foldl_step_above (n : Nat) {kept : List String} (are : ∀ s ∈ kept, IsName s)
    (enough : n ≤ kept.length) : (List.replicate n "..").foldl (step false) kept = kept.drop n := by
  induction n generalizing kept with
  | zero => rfl
  | succ n ih =>
    cases kept with
    | nil => simp at enough
    | cons last rest =>
      have back : step false (last :: rest) ".." = rest := by simp [step, (are last (.head _)).2.2]
      rw [List.replicate_succ, List.foldl_cons, back,
        ih (fun s member => are s (.tail _ member)) (Nat.le_of_succ_le_succ enough), List.drop_succ_cons]

theorem normalize_joinWith {ss : List String} (are : ∀ s ∈ ss, IsSegment s) (nonempty : ss ≠ []) :
    normalize (joinWith "/" ss) =
      let body := joinWith "/" (ss.foldl (step false) []).reverse
      if body.isEmpty then "." else body := by
  have first := head?_joinWith_ne_slash are
  have unrooted : leadingSlashes (joinWith "/" ss) = 0 := by
    unfold leadingSlashes
    split <;> simp_all
  have cut := segments_joinWith are nonempty
  rw [segments] at cut
  simp [normalize, unrooted, cut]

/-- The way from a directory to the one `n` levels above it. -/
def climb (n : Nat) : String := if n = 0 then "./" else .join (List.replicate n "../")

/-- How many directories two lists have in common before they part. -/
def sharedDepth : List String → List String → Nat
  | a :: as, b :: bs => if a = b then sharedDepth as bs + 1 else 0
  | _, _ => 0

/-- The path of `g` as seen from the directory of `f`, by way of the first `k` of the directories they share. -/
def relative (f g : String) (k : Nat) : String :=
  climb ((directories f).length - k) ++ joinWith "/" ((segments g).drop k)

theorem take_eq_of_le_sharedDepth {as bs : List String} {k : Nat} (shared : k ≤ sharedDepth as bs) :
    as.take k = bs.take k ∧ k ≤ as.length ∧ k ≤ bs.length := by
  induction as, bs using sharedDepth.induct generalizing k with
  | case1 as b bs ih =>
    rw [sharedDepth, if_pos rfl] at shared
    cases k with
    | zero => simp
    | succ k =>
      obtain ⟨same, left, right⟩ := ih (Nat.le_of_succ_le_succ shared)
      exact ⟨by simp [same], Nat.succ_le_succ left, Nat.succ_le_succ right⟩
  | case2 a as b bs other =>
    rw [sharedDepth, if_neg other] at shared
    simp [Nat.le_zero.mp shared]
  | case3 as bs apart =>
    have : sharedDepth as bs = 0 := by
      unfold sharedDepth
      split
      next => exact absurd rfl (apart _ _ _ _ rfl)
      next => rfl
    simp [Nat.le_zero.mp (this ▸ shared)]

def climbSegments (n : Nat) : List String := if n = 0 then ["."] else List.replicate n ".."

theorem isSegment_of_mem_climbSegments {n : Nat} {s : String} (member : s ∈ climbSegments n) :
    IsSegment s := by
  rw [climbSegments] at member
  split at member
  next => rw [List.mem_singleton.mp member]; decide
  next => rw [List.eq_of_mem_replicate member]; decide

theorem join_replicate_append (n : Nat) {rest : List String} (nonempty : rest ≠ []) :
    String.join (List.replicate n "../") ++ joinWith "/" rest =
      joinWith "/" (List.replicate n ".." ++ rest) := by
  induction n with
  | zero => simp
  | succ n ih =>
    have further : List.replicate n ".." ++ rest ≠ [] := by simp [nonempty]
    rw [List.replicate_succ, List.replicate_succ, String.join_cons, String.append_assoc, ih, List.cons_append,
      joinWith, joinWith, String.intercalate_cons_of_ne_nil further]
    rfl

theorem climb_append (n : Nat) {rest : List String} (nonempty : rest ≠ []) :
    climb n ++ joinWith "/" rest = joinWith "/" (climbSegments n ++ rest) := by
  rw [climb, climbSegments]
  split
  next =>
    rw [List.singleton_append, joinWith, joinWith, String.intercalate_cons_of_ne_nil nonempty]
    rfl
  next => exact join_replicate_append n nonempty

theorem foldl_step_climbSegments (n : Nat) {kept : List String} (are : ∀ s ∈ kept, IsName s)
    (enough : n ≤ kept.length) : (climbSegments n).foldl (step false) kept = kept.drop n := by
  rw [climbSegments]
  split
  next zero => simp [zero, step]
  next => exact foldl_step_above n are enough

/-- Going up from a directory and down again leads to where the names say. -/
theorem normalize_join_climb {ds names : List String} (above : ∀ s ∈ ds, IsName s)
    (below : ∀ s ∈ names, IsName s) (nonempty : names ≠ []) {k : Nat} (within : k ≤ ds.length) :
    normalize (join (joinWith "/" ds) (climb (ds.length - k) ++ joinWith "/" names)) =
      joinWith "/" (ds.take k ++ names) := by
  have way : ∀ s ∈ climbSegments (ds.length - k) ++ names, IsSegment s := by
    intro s member
    rcases List.mem_append.mp member with member | member
    · exact isSegment_of_mem_climbSegments member
    · exact (below s member).1
  have whole : ∀ s ∈ ds ++ (climbSegments (ds.length - k) ++ names), IsSegment s := by
    intro s member
    rcases List.mem_append.mp member with member | member
    · exact (above s member).1
    · exact way s member
  have followed : ((ds ++ (climbSegments (ds.length - k) ++ names)).foldl (step false) []).reverse =
      ds.take k ++ names := by
    rw [List.foldl_append, List.foldl_append, foldl_step_names [] above, List.append_nil,
      foldl_step_climbSegments _ (by simpa using above) (by simp), foldl_step_names _ below, List.drop_reverse]
    simp [Nat.sub_sub_self within]
  have reached : Normal (joinWith "/" (ds.take k ++ names)) := by
    refine normal_joinWith (fun s member => ?_) (by simp [nonempty])
    rcases List.mem_append.mp member with member | member
    · exact above s (List.mem_of_mem_take member)
    · exact below s member
  rw [climb_append _ nonempty, join_joinWith above way (by simp [nonempty]),
    normalize_joinWith whole (by simp [nonempty]), followed]
  simp [reached.ne_empty]

/-- A path as seen from a file, joined to the directory of that file, is the path again. -/
theorem normalize_join_relative {f g : String} (source : Normal f) (target : Normal g) {k : Nat}
    (shared : k ≤ sharedDepth (directories f) (directories g)) :
    normalize (join (directory f) (relative f g k)) = g := by
  obtain ⟨same, left, right⟩ := take_eq_of_le_sharedDepth shared
  have length : (segments g).length = (directories g).length + 1 := by
    have := List.length_pos_iff.mpr (segments_ne_nil g)
    simp only [directories, List.length_dropLast]
    omega
  have nonempty : (segments g).drop k ≠ [] := by
    rw [← List.length_pos_iff, List.length_drop]
    omega
  have outer : (directories g).take k = (segments g).take k := by
    rw [directories, List.dropLast_eq_take, List.take_take, Nat.min_eq_left (by omega)]
  rw [directory_eq source, relative, normalize_join_climb source.directories_names
    (fun s member => target s (List.mem_of_mem_drop member)) nonempty left, same, outer,
    List.take_append_drop, joinWith_segments]

end ChangeLens.Path
