import ChangeLens.ControlFlow.Annotation
import ChangeLens.Sorted
import Mathlib.Data.List.Basic

/-! Halving a sorted list of lines ends behind just those below a bound, at the first one that reaches it. So the
answer to whether a span holds a line is right for every span, at both ends of the list too. -/
namespace ChangeLens

/-- All lines before `low` lie below the bound, all from `high` on reach it. -/
structure Narrowed (lines : Array Int) (bound : Int) (low high : Nat) : Prop where
  below : ∀ i, i < low → lines.getD i 0 < bound
  reached : ∀ i, high ≤ i → i < lines.size → bound ≤ lines.getD i 0

section
variable {lines : Array Int} {bound : Int} {low high middle : Nat}
  (sorted : ∀ i j, i ≤ j → j < lines.size → lines.getD i 0 ≤ lines.getD j 0)
include sorted

theorem Narrowed.raise (narrowed : Narrowed lines bound low high) (inside : middle < lines.size)
    (above : lines.getD middle 0 < bound) : Narrowed lines bound (middle + 1) high := by
  refine ⟨fun i before => ?_, narrowed.reached⟩
  exact Int.lt_of_le_of_lt (sorted i middle (by omega) inside) above

theorem Narrowed.lower (narrowed : Narrowed lines bound low high)
    (notAbove : ¬ lines.getD middle 0 < bound) : Narrowed lines bound low middle := by
  refine ⟨narrowed.below, fun i after inside => ?_⟩
  exact Int.le_trans (Int.not_lt.mp notAbove) (sorted middle i after inside)

/-- Each halving keeps the part narrowed, so all is told when nothing is left of it. -/
theorem firstReaching_spec (ordered : low ≤ high) (within : high ≤ lines.size)
    (narrowed : Narrowed lines bound low high) :
    firstReaching lines bound low high ≤ lines.size ∧
      Narrowed lines bound (firstReaching lines bound low high) (firstReaching lines bound low high) := by
  induction low, high using firstReaching.induct lines bound with
  | case1 low high less middle above ih =>
    rw [firstReaching, dif_pos less, if_pos above]
    exact ih (by omega) within (narrowed.raise sorted (by omega) above)
  | case2 low high less middle notAbove ih =>
    rw [firstReaching, dif_pos less, if_neg notAbove]
    exact ih (by omega) (by omega) (narrowed.lower sorted notAbove)
  | case3 low high done =>
    obtain rfl : low = high := by omega
    rw [firstReaching, dif_neg done]
    exact ⟨within, narrowed⟩

end

variable {lines : List Int}

theorem getD_le_getD (sorted : lines.Pairwise (· ≤ ·)) {i j : Nat} (le : i ≤ j)
    (inside : j < lines.length) : lines.toArray.getD i 0 ≤ lines.toArray.getD j 0 := by
  have first : i < lines.length := Nat.lt_of_le_of_lt le inside
  rcases Nat.eq_or_lt_of_le le with rfl | less
  · exact Int.le_refl _
  · simpa [Array.getD, first, inside] using List.pairwise_iff_getElem.mp sorted i j first inside less

theorem getD_toArray {i : Nat} {line : Int} (listed : lines[i]? = some line) : lines.toArray.getD i 0 = line := by
  simp [Array.getD_eq_getD_getElem?, listed]

theorem firstReaching_whole (sorted : lines.Pairwise (· ≤ ·)) (bound : Int) :
    firstReaching lines.toArray bound 0 lines.length ≤ lines.length ∧
      Narrowed lines.toArray bound (firstReaching lines.toArray bound 0 lines.length)
        (firstReaching lines.toArray bound 0 lines.length) := by
  refine firstReaching_spec (fun i j le inside => getD_le_getD sorted le inside) (Nat.zero_le _)
    (Nat.le_refl _) ⟨fun i before => absurd before (Nat.not_lt_zero i), fun i after inside => ?_⟩
  exact absurd inside (Nat.not_lt.mpr after)

/-- A line stands before the place found just if it lies below the bound. -/
theorem lt_firstReaching_iff (sorted : lines.Pairwise (· ≤ ·)) (bound : Int) {i : Nat} {line : Int}
    (listed : lines[i]? = some line) :
    i < firstReaching lines.toArray bound 0 lines.length ↔ line < bound := by
  have narrowed := (firstReaching_whole sorted bound).2
  have inside : i < lines.length := (List.getElem?_eq_some_iff.mp listed).1
  constructor
  · intro before
    have := narrowed.below i before
    rwa [getD_toArray listed] at this
  · intro less
    refine Nat.not_le.mp fun after => ?_
    have := narrowed.reached i after inside
    rw [getD_toArray listed] at this
    omega

/-- Just the lines below the bound stand before the place found. -/
theorem firstReaching_eq_countP (sorted : lines.Pairwise (· ≤ ·)) (bound : Int) :
    firstReaching lines.toArray bound 0 lines.length = lines.countP (· < bound) := by
  have within := (firstReaching_whole sorted bound).1
  have before {i : Nat} {line : Int} (listed : lines[i]? = some line) :=
    lt_firstReaching_iff sorted bound listed
  generalize firstReaching lines.toArray bound 0 lines.length = place at within before ⊢
  have front : (lines.take place).countP (· < bound) = place := by
    rw [List.countP_eq_length.mpr, List.length_take, Nat.min_eq_left within]
    intro line member
    obtain ⟨i, listed⟩ := List.mem_iff_getElem?.mp member
    rw [List.getElem?_take, Option.ite_none_right_eq_some] at listed
    simpa using (before listed.2).mp listed.1
  have back : (lines.drop place).countP (· < bound) = 0 := by
    apply List.countP_eq_zero.mpr
    intro line member
    obtain ⟨i, listed⟩ := List.mem_iff_getElem?.mp member
    rw [List.getElem?_drop] at listed
    have notBefore : ¬ place + i < place := by omega
    simpa using notBefore ∘ (before listed).mpr
  calc
    place = (lines.take place).countP (· < bound) + (lines.drop place).countP (· < bound) := by omega
    _ = lines.countP (· < bound) := by rw [← List.countP_append, List.take_append_drop]

theorem touches_iff (sorted : lines.Pairwise (· ≤ ·)) (start stop : Int) :
    touches start stop lines = true ↔ ∃ line ∈ lines, start ≤ line ∧ line ≤ stop := by
  have before {i : Nat} {line : Int} (listed : lines[i]? = some line) :=
    lt_firstReaching_iff sorted start listed
  rw [touches]
  generalize firstReaching lines.toArray start 0 lines.length = place at before ⊢
  cases found : lines[place]? with
  | none =>
    refine iff_of_false Bool.false_ne_true ?_
    rintro ⟨line, member, reaches, -⟩
    obtain ⟨i, listed⟩ := List.mem_iff_getElem?.mp member
    have inside := (List.getElem?_eq_some_iff.mp listed).1
    have outside := List.getElem?_eq_none_iff.mp found
    have less : line < start := (before listed).mp (by omega)
    omega
  | some line =>
    have reaches : start ≤ line := Int.not_lt.mp fun less => Nat.lt_irrefl place ((before found).mpr less)
    constructor
    · intro ends
      exact ⟨line, List.mem_of_getElem? found, reaches, by simpa using ends⟩
    · rintro ⟨other, member, otherReaches, ends⟩
      obtain ⟨i, listed⟩ := List.mem_iff_getElem?.mp member
      -- No line before the first that reaches the start can lie in the span.
      have after : place ≤ i := Nat.not_lt.mp fun less => Int.not_lt.mpr otherReaches ((before listed).mp less)
      have le := getD_le_getD sorted after (List.getElem?_eq_some_iff.mp listed).1
      rw [getD_toArray found, getD_toArray listed] at le
      simpa using Int.le_trans le ends

theorem touches_sortDistinct_iff {changed : List Int} {start stop : Int} :
    touches start stop (sortDistinct (· ≤ ·) changed) = true ↔ ∃ line ∈ changed, start ≤ line ∧ line ≤ stop := by
  rw [touches_iff ((pairwise_sortDistinct changed).imp fun less => Int.le_of_lt less)]
  simp only [mem_sortDistinct]

/-- On lines in strictly increasing order the search ends behind just those lines that are less than `start`, and a
line is found just if one of them lies between `start` and `stop`, also where the span ends before it starts. -/
theorem halving_decides_touch (increasing : lines.Pairwise (· < ·)) (start stop : Int) :
    firstReaching lines.toArray start 0 lines.length = lines.countP (· < start) ∧
      (touches start stop lines = true ↔ ∃ line ∈ lines, start ≤ line ∧ line ≤ stop) := by
  have sorted : lines.Pairwise (· ≤ ·) := increasing.imp fun less => Int.le_of_lt less
  exact ⟨firstReaching_eq_countP sorted start, touches_iff sorted start stop⟩

/-- The last line is found at the start of a span and the first at the end of one; a gap holds no line, and no more
does a span that ends before it starts. -/
theorem halving_decides_touch_edges :
    [(2 : Int), 5, 9].Pairwise (· < ·) ∧ firstReaching #[2, 5, 9] 9 0 3 = 2 ∧ touches 9 12 [2, 5, 9] = true ∧
      touches (-1) 2 [2, 5, 9] = true ∧ touches 6 8 [2, 5, 9] = false ∧ touches 5 4 [2, 5, 9] = false := by
  have increasing : [(2 : Int), 5, 9].Pairwise (· < ·) := by simp
  have decided := halving_decides_touch increasing
  refine ⟨increasing, (decided 9 12).1, (decided 9 12).2.mpr ?_, (decided (-1) 2).2.mpr ?_,
    Bool.eq_false_iff.mpr (mt (decided 6 8).2.mp ?_), Bool.eq_false_iff.mpr (mt (decided 5 4).2.mp ?_)⟩
  · exact ⟨9, by simp⟩
  · exact ⟨2, by simp⟩
  · simp
  · simp

end ChangeLens
