import ChangeLens.Proofs.Patch.Whole
import ChangeLens.Report.Sections
import Mathlib.Order.Bounds.Basic

/-! Cutting a diff to a limit of characters. Of a diff that is made up of whole sections, the first ones that fit
together are kept, and as many of them as can be. -/
namespace ChangeLens.Report

open Patch

/-- The numbers of sections, counted from the first one on, that fit a limit together. -/
def fitting (limit : Nat) (ss : List (List Char)) : Set Nat :=
  {k | k ≤ ss.length ∧ (ss.take k).flatten.length ≤ limit}

/-- How many sections fit, when they are added one by one until one does not. -/
def fitCount : (room : Nat) → List (List Char) → Nat
  | _, [] => 0
  | room, s :: ss => if s.length ≤ room then fitCount (room - s.length) ss + 1 else 0

theorem fitCount_eq_zero_iff {limit : Nat} {s : List Char} {ss : List (List Char)} :
    fitCount limit (s :: ss) = 0 ↔ limit < s.length := by
  rw [fitCount]
  split <;> simp_all

theorem isGreatest_fitCount (room : Nat) (ss : List (List Char)) :
    IsGreatest (fitting room ss) (fitCount room ss) := by
  induction ss generalizing room with
  | nil => exact ⟨⟨Nat.le_refl _, Nat.zero_le _⟩, fun _ ⟨bound, _⟩ => bound⟩
  | cons s ss ih =>
    by_cases fits : s.length ≤ room
    · obtain ⟨⟨bound, within⟩, most⟩ := ih (room - s.length)
      rw [fitCount, if_pos fits]
      refine ⟨⟨by simpa using bound, ?_⟩, ?_⟩
      · rw [List.take_succ_cons, List.flatten_cons, List.length_append]
        omega
      · rintro (_ | j) ⟨bound, within⟩
        · exact Nat.zero_le _
        · rw [List.take_succ_cons, List.flatten_cons, List.length_append] at within
          exact Nat.succ_le_succ (most ⟨Nat.le_of_succ_le_succ bound, by omega⟩)
    · rw [fitCount, if_neg fits]
      refine ⟨⟨Nat.zero_le _, Nat.zero_le _⟩, ?_⟩
      -- A longer beginning holds the first section, which alone is too long.
      rintro (_ | j) ⟨-, within⟩
      · exact Nat.le_refl _
      · rw [List.take_succ_cons, List.flatten_cons, List.length_append] at within
        omega

theorem fitSections_eq {ss : List (List Char)} (marked : ∀ s ∈ ss, sectionMark <+: s) (kept : List Char)
    (room : Nat) :
    fitSections (kept.length + room) kept (ss.map unmarked) =
      kept ++ (ss.take (fitCount room ss)).flatten ++ if fitCount room ss < ss.length then sectionsCut else [] := by
  induction ss generalizing kept room with
  | nil => simp [fitSections]
  | cons s ss ih =>
    obtain ⟨body, rfl⟩ := marked s (.head _)
    rw [List.map_cons, unmarked_mark_append, fitSections]
    by_cases fits : (sectionMark ++ body).length ≤ room
    · have rest := ih (fun t member => marked t (.tail _ member)) (kept ++ (sectionMark ++ body))
        (room - (sectionMark ++ body).length)
      have same : ((kept ++ (sectionMark ++ body)).length + (room - (sectionMark ++ body).length : Nat) : Int) =
          kept.length + room := by
        rw [List.length_append]
        omega
      rw [same] at rest
      rw [if_neg (by omega), fitCount, if_pos fits, rest]
      simp
    · rw [if_pos (by omega), fitCount, if_neg fits]
      simp

theorem fitCount_lt_length {limit : Nat} {ss : List (List Char)} (long : limit < ss.flatten.length) :
    fitCount limit ss < ss.length := by
  have ⟨⟨bound, within⟩, _⟩ := isGreatest_fitCount limit ss
  refine Nat.lt_of_le_of_ne bound fun all => ?_
  rw [all, List.take_length] at within
  omega

theorem flatten_take_eq_nil_iff {ss : List (List Char)} (whole : ∀ s ∈ ss, Whole s) (nonempty : ss ≠ []) (k : Nat) :
    (ss.take k).flatten = [] ↔ k = 0 := by
  obtain ⟨s, ss, rfl⟩ := List.exists_cons_of_ne_nil nonempty
  cases k with
  | zero => simp
  | succ k =>
    have := (whole s (.head _)).more
    simp [List.ne_nil_of_length_pos (Nat.zero_lt_of_lt this)]

/-- A diff over the limit is cut behind the sections that fit, or at the limit if none does. -/
theorem truncateDiff_of_lt {diff : String} {ss : List (List Char)} (sectioned : Sectioned diff.toList ss)
    {limit : Nat} (long : limit < diff.length) :
    truncateDiff limit diff =
      if fitCount limit ss = 0 then .ofList (diff.toList.take limit) ++ "\n... (truncated)"
      else .ofList (ss.take (fitCount limit ss)).flatten ++ "\n... (diff truncated)" := by
  have total : diff.toList.length = ss.flatten.length := congrArg List.length sectioned.joined
  rw [← String.length_toList] at long
  have cut : fitSections limit [] (sections diff) = (ss.take (fitCount limit ss)).flatten ++ sectionsCut := by
    have fit := fitSections_eq (fun s member => (sectioned.whole s member).marked) [] limit
    rw [if_pos (fitCount_lt_length (total ▸ long))] at fit
    simpa [sections_of_sectioned sectioned] using fit
  have empty := flatten_take_eq_nil_iff sectioned.whole sectioned.nonempty (fitCount limit ss)
  rw [truncateDiff, if_neg (by omega), cut]
  by_cases none : fitCount limit ss = 0
  · simp [none, Text.takeSigned]
  · have something : (ss.take (fitCount limit ss)).flatten ≠ [] := mt empty.mp none
    have marker : String.ofList sectionsCut = "\n... (diff truncated)" := String.ofList_toList
    rw [if_neg none, if_neg (by simp [something]), String.ofList_append, marker]

/-- A diff of whole sections stays as it is within the limit. Over it, as many sections are kept as fit together, or,
if the first one alone is too long, the first characters. -/
theorem truncateDiff_keeps_whole_sections {diff : String} {ss : List (List Char)}
    (sectioned : Sectioned diff.toList ss) (limit : Nat) :
    (diff.length ≤ limit → truncateDiff limit diff = diff) ∧
    (limit < diff.length → limit < (ss.head sectioned.nonempty).length →
      truncateDiff limit diff = .ofList (diff.toList.take limit) ++ "\n... (truncated)") ∧
    (limit < diff.length → (ss.head sectioned.nonempty).length ≤ limit →
      ∃ k, 1 ≤ k ∧ IsGreatest (fitting limit ss) k ∧
        truncateDiff limit diff = .ofList (ss.take k).flatten ++ "\n... (diff truncated)") ∧
    ∃ kept marker, truncateDiff limit diff = .ofList kept ++ marker ∧ kept <+: diff.toList ∧ kept.length ≤ limit ∧
      (if diff.length ≤ limit then marker = ""
        else marker = "\n... (truncated)" ∨ marker = "\n... (diff truncated)") := by
  have greatest := isGreatest_fitCount limit ss
  have none : fitCount limit ss = 0 ↔ limit < (ss.head sectioned.nonempty).length := by
    obtain ⟨s, rest, rfl⟩ := List.exists_cons_of_ne_nil sectioned.nonempty
    exact fitCount_eq_zero_iff
  have short (fits : diff.length ≤ limit) : truncateDiff limit diff = diff := by
    rw [truncateDiff, if_pos (by rw [String.length_toList]; omega)]
  refine ⟨short, fun long first => ?_, fun long first => ?_, ?_⟩
  · rw [truncateDiff_of_lt sectioned long, if_pos (none.mpr first)]
  · have some : fitCount limit ss ≠ 0 := fun zero => absurd (none.mp zero) (by omega)
    exact ⟨fitCount limit ss, Nat.pos_of_ne_zero some, greatest, by
      rw [truncateDiff_of_lt sectioned long, if_neg some]⟩
  · rcases Nat.lt_or_ge limit diff.length with long | fits
    · have below : ¬diff.length ≤ limit := by omega
      simp only [truncateDiff_of_lt sectioned long, if_neg below]
      split
      · exact ⟨diff.toList.take limit, _, rfl, List.take_prefix .., List.length_take_le .., .inl rfl⟩
      · refine ⟨(ss.take (fitCount limit ss)).flatten, _, rfl, ?_, greatest.1.2, .inr rfl⟩
        exact sectioned.joined ▸ (List.take_prefix _ ss).flatten
    · refine ⟨diff.toList, "", by simp [short fits], List.prefix_rfl, ?_, if_pos fits ▸ rfl⟩
      rwa [String.length_toList]

def firstSection : List Char := "diff --git a/a b/a\n+x\n".toList

/-- The mark does not begin a line in this one, where it stands twice. -/
def secondSection : List Char := "diff --git a/b b/b\n+diff --git \n".toList

theorem truncateDiff_keeps_whole_sections_first :
    Sectioned (String.ofList (firstSection ++ secondSection)).toList [firstSection, secondSection] ∧
    truncateDiff 22 (.ofList (firstSection ++ secondSection)) =
      .ofList firstSection ++ "\n... (diff truncated)" := by
  have sectioned : Sectioned (String.ofList (firstSection ++ secondSection)).toList [firstSection, secondSection] := by
    refine ⟨by simp, ?_, ?_, by simp⟩
    · have first : Whole firstSection := ⟨by decide, by decide, by decide⟩
      have second : Whole secondSection := ⟨by decide, by decide, by decide⟩
      simp [first, second]
    · decide
  refine ⟨sectioned, ?_⟩
  obtain ⟨k, positive, ⟨⟨bound, within⟩, -⟩, cut⟩ :=
    (truncateDiff_keeps_whole_sections sectioned 22).2.2.1 (by decide) (by rw [List.head_cons]; decide)
  have counts : k = 1 ∨ k = 2 := by
    rw [List.length_cons, List.length_singleton] at bound
    omega
  rcases counts with rfl | rfl
  · simpa using cut
  · exact absurd within (by decide)

end ChangeLens.Report
