import ChangeLens.Text.Lowercase
import Mathlib.Data.List.Basic

/-! Lower-case text has no capitals left, so that lower-casing it again changes nothing. Of the table this needs that
no run of capitals is led into another one, or into itself. -/
namespace ChangeLens.Text

namespace CaseRun

def shifted (r : CaseRun) (n : Nat) : Nat := ((n : Int) + r.shift).toNat

/-- No capital of the first run has its small letter among the characters of the second one. Two runs that overlap are
told apart by odd and even. -/
def misses (r s : CaseRun) : Bool :=
  Nat.blt (r.shifted r.last) s.first || Nat.blt s.last (r.shifted r.first) ||
    s.step == 2 && (r.step == 2 || r.first == r.last) && (r.shifted r.first + s.first) % 2 == 1

/-- The small letters are characters, and surrogates are none. -/
def staysValid (r : CaseRun) : Bool :=
  0 ≤ (r.first : Int) + r.shift &&
    (r.shifted r.last < 0xD800 || 0xDFFF < r.shifted r.first && r.shifted r.last < 0x110000)

variable {r s : CaseRun} {n : Nat}

theorem contains_iff : r.contains n ↔ r.first ≤ n ∧ n ≤ r.last ∧ (n - r.first) % r.step = 0 := by
  simp [contains, and_assoc]

theorem misses_iff : r.misses s ↔ r.shifted r.last < s.first ∨ s.last < r.shifted r.first ∨
    s.step = 2 ∧ (r.step = 2 ∨ r.first = r.last) ∧ (r.shifted r.first + s.first) % 2 = 1 := by
  simp [misses, and_assoc, or_assoc]

theorem staysValid_iff : r.staysValid ↔ 0 ≤ (r.first : Int) + r.shift ∧
    (r.shifted r.last < 0xD800 ∨ 0xDFFF < r.shifted r.first ∧ r.shifted r.last < 0x110000) := by
  simp [staysValid]

theorem not_contains_shifted (apart : r.misses s) (valid : r.staysValid) (capital : r.contains n) :
    s.contains (r.shifted n) = false := by
  obtain ⟨above, below, step⟩ := contains_iff.mp capital
  obtain ⟨least, -⟩ := staysValid_iff.mp valid
  refine Bool.eq_false_iff.mpr fun member => ?_
  obtain ⟨above', below', step'⟩ := contains_iff.mp member
  rcases misses_iff.mp apart with left | right | ⟨even, every, odd⟩
  · unfold shifted at *
    omega
  · unfold shifted at *
    omega
  · rw [even] at step'
    unfold shifted at *
    rcases every with even' | single
    · rw [even'] at step
      omega
    · omega

theorem toNat_ofNat_shifted (valid : r.staysValid) (capital : r.contains n) :
    (Char.ofNat (r.shifted n)).toNat = r.shifted n := by
  obtain ⟨above, below, -⟩ := contains_iff.mp capital
  obtain ⟨least, range⟩ := staysValid_iff.mp valid
  have proper : (r.shifted n).isValidChar := by
    unfold Nat.isValidChar
    unfold shifted at *
    omega
  rw [Char.ofNat, dif_pos proper]
  rfl

end CaseRun

def capitals : List CaseRun := ⟨65, 90, 1, 32⟩ :: caseRuns

/-- No capital, so that the character stays as it is in lower case. The dotted capital I stands in no run. -/
def IsSmall (c : Char) : Prop := c.toNat ≠ 0x130 ∧ ∀ run ∈ capitals, run.contains c.toNat = false

instance (c : Char) : Decidable (IsSmall c) := inferInstanceAs (Decidable (_ ∧ _))

def dotted : CaseRun := ⟨0x130, 0x130, 1, 0⟩

theorem all_capitals : (capitals.all fun r => r.staysValid && (dotted :: capitals).all r.misses) = true := by
  decide +kernel

theorem capitals_settle {r : CaseRun} (run : r ∈ capitals) :
    r.staysValid ∧ r.misses dotted ∧ ∀ s ∈ capitals, r.misses s := by
  simpa using List.all_eq_true.mp all_capitals r run

theorem least_caseRuns : ∀ r ∈ caseRuns, 128 ≤ r.first := by decide +kernel

theorem isAsciiCapital_iff {c : Char} :
    ('A' ≤ c && c ≤ 'Z') = true ↔ (⟨65, 90, 1, 32⟩ : CaseRun).contains c.toNat := by
  rw [CaseRun.contains_iff, Bool.and_eq_true, decide_eq_true_iff, decide_eq_true_iff, Char.le_def, Char.le_def,
    UInt32.le_iff_toNat_le, UInt32.le_iff_toNat_le]
  simp [Nat.mod_one]

/-- A character either belongs to a run of capitals, or it is left as it is. -/
theorem lowerChar_cases (c : Char) :
    (∃ r ∈ capitals, r.contains c.toNat ∧ lowerChar c = Char.ofNat (r.shifted c.toNat)) ∨
      (∀ r ∈ capitals, r.contains c.toNat = false) ∧ lowerChar c = c := by
  unfold lowerChar
  split
  next ascii =>
    refine .inl ⟨_, List.mem_cons_self .., isAsciiCapital_iff.mp ascii, ?_⟩
    rfl
  next other =>
    have front : (⟨65, 90, 1, 32⟩ : CaseRun).contains c.toNat = false :=
      Bool.eq_false_iff.mpr (mt isAsciiCapital_iff.mpr other)
    split
    next low =>
      refine .inr ⟨List.forall_mem_cons.mpr ⟨front, fun r member => Bool.eq_false_iff.mpr fun holds => ?_⟩, rfl⟩
      have := least_caseRuns r member
      have := (CaseRun.contains_iff.mp holds).1
      omega
    next =>
      cases found : caseRuns.find? (·.contains c.toNat) with
      | some r =>
        have capital : r.contains c.toNat = true := by simpa using List.find?_some found
        exact .inl ⟨r, .tail _ (List.mem_of_find?_eq_some found), capital, rfl⟩
      | none =>
        have none : ∀ r ∈ caseRuns, r.contains c.toNat = false := by simpa using found
        exact .inr ⟨List.forall_mem_cons.mpr ⟨front, none⟩, rfl⟩

theorem isSmall_lowerChar {c : Char} (single : c ≠ '\u0130') : IsSmall (lowerChar c) := by
  rcases lowerChar_cases c with ⟨r, run, capital, small⟩ | ⟨none, same⟩
  · obtain ⟨valid, dot, others⟩ := capitals_settle run
    rw [small, IsSmall, CaseRun.toNat_ofNat_shifted valid capital]
    refine ⟨fun here => ?_, fun s member => CaseRun.not_contains_shifted (others s member) valid capital⟩
    have apart := CaseRun.not_contains_shifted dot valid capital
    rw [here] at apart
    contradiction
  · rw [same]
    exact ⟨fun here => single (Char.toNat_inj.mp here), none⟩

theorem lowerChar_of_isSmall {c : Char} (small : IsSmall c) : lowerChar c = c := by
  rcases lowerChar_cases c with ⟨r, run, capital, -⟩ | ⟨-, same⟩
  · rw [small.2 r run] at capital
    contradiction
  · exact same

/-- The small letters of the dotted capital I and of the capital sigma. -/
theorem isSmall_special : ∀ c ∈ ['i', '\u0307', '\u03c2', '\u03c3'], IsSmall c := by
  -- One by one: the whole statement would be decided over every character there is.
  simp only [List.forall_mem_cons]
  exact ⟨by decide +kernel, by decide +kernel, by decide +kernel, by decide +kernel, by simp⟩

theorem isSmall_of_mem_lowerFrom {before cs : List Char} : ∀ c ∈ lowerFrom before cs, IsSmall c := by
  induction cs generalizing before with
  | nil => simp [lowerFrom]
  | cons d ds ih =>
    intro c member
    rw [lowerFrom] at member
    rcases List.mem_append.mp member with here | later
    · split at here
      next => exact isSmall_special c (by simp at here ⊢; tauto)
      next plain =>
        split at here
        next =>
          refine isSmall_special c ?_
          split at here <;> simp_all
        next =>
          rw [List.mem_singleton.mp here]
          exact isSmall_lowerChar (by simpa using plain)
    · exact ih c later

theorem lowerFrom_of_isSmall {before cs : List Char} (small : ∀ c ∈ cs, IsSmall c) : lowerFrom before cs = cs := by
  induction cs generalizing before with
  | nil => rfl
  | cons c cs ih =>
    obtain ⟨here, later⟩ := List.forall_mem_cons.mp small
    have plain : c ≠ '\u0130' := by rintro rfl; exact here.1 rfl
    have noSigma : c ≠ '\u03a3' := by rintro rfl; revert here; decide +kernel
    simp [lowerFrom, plain, noSigma, lowerChar_of_isSmall here, ih later]

@[simp] theorem lower_lower (s : String) : lower (lower s) = lower s := by
  rw [lower, lower, String.toList_ofList, lowerFrom_of_isSmall isSmall_of_mem_lowerFrom]

theorem nextHasCase_concat_dot (before : List Char) : nextHasCase (before ++ ['.']) = nextHasCase before := by
  have ignored : caseIgnorable.contains 46 = true := by decide +kernel
  have dot : ['.'].dropWhile (caseIgnorable.contains ·.toNat) = [] := by
    simp [ignored]
  unfold nextHasCase
  rw [List.dropWhile_append, dot]
  cases before.dropWhile (caseIgnorable.contains ·.toNat) <;> rfl

theorem lowerFrom_concat_dot (before cs : List Char) : lowerFrom (before ++ ['.']) cs = lowerFrom before cs := by
  induction cs generalizing before with
  | nil => rfl
  | cons c cs ih => rw [lowerFrom, lowerFrom, nextHasCase_concat_dot, ← List.cons_append, ih]

theorem lower_dot (s : String) : lower ("." ++ s) = "." ++ lower s := by
  have dot : lowerFrom [] ('.' :: s.toList) = '.' :: lowerFrom [] s.toList := by
    rw [lowerFrom, show ['.'] = [] ++ ['.'] from rfl, lowerFrom_concat_dot]
    rfl
  rw [lower, lower, String.toList_append, show ".".toList = ['.'] from rfl, List.singleton_append, dot,
    ← List.singleton_append, String.ofList_append]

end ChangeLens.Text
