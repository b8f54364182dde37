import ChangeLens.Proofs.Path.Segments

/-! Paths that begin with `./`. They lead where the path behind it leads, from any directory. -/
namespace ChangeLens.Path

open Text

def opened (base : String) : String :=
  if base.isEmpty || base.toList.getLast? == some '/' then base else base ++ "/"

theorem join_of_unrooted {path : String} (unrooted : startsWith "/" path = false) (base : String) :
    join base path = opened base ++ path := by
  unfold join opened
  rw [unrooted, if_neg Bool.false_ne_true]
  split <;> rfl

theorem opened_cases (base : String) :
    opened base = "" ∨ ∃ front, (opened base).toList = front ++ ['/'] := by
  unfold opened
  split
  next ends =>
    rcases Bool.or_eq_true_iff.mp ends with empty | slash
    · exact .inl (String.isEmpty_iff.mp empty)
    · exact .inr (List.getLast?_eq_some_iff.mp (by simpa using slash))
  next => exact .inr ⟨base.toList, by simp⟩

/-- What comes behind a slash, or at the beginning, is followed from where the part before it leads. -/
theorem foldl_splitAt_opened (base : String) (follow : List String → String → List String) (kept : List String) :
    ∃ reached, ∀ path, (splitAt '/' (opened base ++ path)).foldl follow kept =
      (splitAt '/' path).foldl follow reached := by
  rcases opened_cases base with none | ⟨front, slash⟩
  · exact ⟨kept, fun path => by rw [none, String.empty_append]⟩
  · refine ⟨((front.splitOn '/').map .ofList).foldl follow kept, fun path => ?_⟩
    simp [splitAt, slash, List.splitOn_append_cons_self, List.foldl_append]

theorem takeWhile_slash {cs : List Char} (first : cs.head? ≠ some '/') : cs.takeWhile (· == '/') = [] := by
  cases cs with
  | nil => rfl
  | cons c cs => exact List.takeWhile_cons_of_neg (by simpa using first)

/-- How many slashes are kept is told by the run of slashes in front. -/
theorem leadingSlashes_eq (path : String) : leadingSlashes path =
    match (path.toList.takeWhile (· == '/')).length with
    | 0 => 0
    | 2 => 2
    | _ => 1 := by
  have other {cs : List Char} (misfit : ∀ tail, cs = '/' :: tail → False) : cs.takeWhile (· == '/') = [] := by
    apply takeWhile_slash
    intro slash
    obtain ⟨tail, split⟩ := List.head?_eq_some_iff.mp slash
    exact misfit tail split
  unfold leadingSlashes
  split
  next three => simp [three]
  next misfit two => simp [two, other misfit]
  next misfit one => simp [one, other (fun tail => misfit tail)]
  next misfit => simp [other misfit]

theorem leadingSlashes_append {path other : String} (unrooted : path.toList.head? ≠ some '/')
    (unrootedOther : other.toList.head? ≠ some '/') (base : String) :
    leadingSlashes (base ++ path) = leadingSlashes (base ++ other) := by
  rw [leadingSlashes_eq, leadingSlashes_eq, String.toList_append, String.toList_append, List.takeWhile_append,
    List.takeWhile_append, takeWhile_slash unrooted, takeWhile_slash unrootedOther]

theorem startsWith_slash_here (path : String) : startsWith "/" ("./" ++ path) = false := by
  rw [← Bool.not_eq_true, startsWith_slash_iff]
  simp

theorem normalize_join_here {path : String} (unrooted : startsWith "/" path = false) (base : String) :
    normalize (join base ("./" ++ path)) = normalize (join base path) := by
  rw [join_of_unrooted (startsWith_slash_here path), join_of_unrooted unrooted]
  have first : path.toList.head? ≠ some '/' := fun slash => by
    simpa [unrooted] using startsWith_slash_iff.mpr slash
  have slashes : leadingSlashes (opened base ++ ("./" ++ path)) = leadingSlashes (opened base ++ path) :=
    leadingSlashes_append (by simp) first _
  have here : splitAt '/' ("./" ++ path) = "." :: splitAt '/' path := by
    simp [splitAt, List.splitOn_cons_eq_if_modifyHead]
  obtain ⟨reached, followed⟩ :=
    foldl_splitAt_opened base (step (leadingSlashes (opened base ++ path) != 0)) []
  have stays : step (leadingSlashes (opened base ++ path) != 0) reached "." = reached := by simp [step]
  simp only [normalize, slashes, followed, here, List.foldl_cons, stays]

end ChangeLens.Path
