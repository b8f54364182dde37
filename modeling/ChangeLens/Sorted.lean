/-! Sorted lists without repetitions, as canonical forms of sets. -/
namespace ChangeLens

def consNew [DecidableEq α] (a : α) (rest : List α) : List α := if rest.head? = some a then rest else a :: rest

def sortDistinct [DecidableEq α] (le : α → α → Bool) (xs : List α) : List α :=
  (xs.mergeSort le).foldr consNew []

theorem mem_consNew [DecidableEq α] {a b : α} {rest : List α} : b ∈ consNew a rest ↔ b = a ∨ b ∈ rest := by
  unfold consNew
  split
  next h =>
    have : a ∈ rest := List.mem_of_mem_head? h
    exact ⟨Or.inr, fun e => e.elim (fun e => e ▸ this) id⟩
  next => simp

theorem mem_foldr_consNew [DecidableEq α] {a : α} {xs : List α} : a ∈ xs.foldr consNew [] ↔ a ∈ xs := by
  induction xs with
  | nil => simp
  | cons x xs ih => simp [mem_consNew, ih]

theorem mem_sortDistinct [DecidableEq α] {le : α → α → Bool} {a : α} {xs : List α} :
    a ∈ sortDistinct le xs ↔ a ∈ xs := by
  rw [sortDistinct, mem_foldr_consNew, (List.mergeSort_perm xs le).mem_iff]

theorem pairwise_foldr_consNew [DecidableEq α] {le : α → α → Bool}
    (antisymm : ∀ a b, le a b → le b a → a = b) {xs : List α} (sorted : xs.Pairwise (le · ·)) :
    (xs.foldr consNew []).Pairwise (fun a b => le a b ∧ a ≠ b) := by
  induction xs with
  | nil => exact .nil
  | cons x xs ih =>
    have rest := ih (List.pairwise_cons.mp sorted).2
    have below : ∀ y ∈ xs.foldr consNew [], le x y := fun y member =>
      (List.pairwise_cons.mp sorted).1 y (mem_foldr_consNew.mp member)
    rw [List.foldr_cons, consNew]
    split
    next => exact rest
    next fresh =>
      refine List.pairwise_cons.mpr ⟨fun y member => ⟨below y member, ?_⟩, rest⟩
      rintro rfl
      -- A second copy of `x` could only stand behind a smaller head.
      cases equal : xs.foldr consNew [] with
      | nil => simp [equal] at member
      | cons z zs =>
        rw [equal] at member rest below fresh
        rcases List.mem_cons.mp member with rfl | later
        · exact fresh rfl
        · have less := (List.pairwise_cons.mp rest).1 _ later
          exact less.2 (antisymm _ _ less.1 (below z (.head _)))

theorem pairwise_sortDistinct [LE α] [LT α] [DecidableLE α] [DecidableEq α] [Std.IsLinearOrder α]
    [Std.LawfulOrderLT α] (xs : List α) : (sortDistinct (· ≤ ·) xs).Pairwise (· < ·) := by
  have sorted : (xs.mergeSort (· ≤ ·)).Pairwise (fun a b => decide (a ≤ b)) := List.pairwise_mergeSort
    (fun a b c ab bc => by simpa using Std.le_trans (by simpa using ab) (by simpa using bc))
    (fun a b => by simpa using Std.Total.total a b) xs
  refine (pairwise_foldr_consNew (fun a b ab ba => ?_) sorted).imp fun less => ?_
  · exact Std.le_antisymm (by simpa using ab) (by simpa using ba)
  · exact Std.lt_of_le_of_ne (by simpa using less.1) less.2

end ChangeLens
