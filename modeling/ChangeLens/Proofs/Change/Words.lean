import ChangeLens.Change.Stem
import ChangeLens.Proofs.Text.Pieces
import Mathlib.Data.List.Forall2

/-! The words of a name. A word is the longest one of the first shape that fits where it begins. One such word always
fits, so the words leave nothing out, and they are the only ones that a row of letters and digits can be told to have. -/
namespace ChangeLens.Stem

open Text

inductive Shape where
  /-- Capitals before a capital with a small letter behind it. -/
  | acronym
  /-- Small letters, with or without a capital in front. -/
  | plain
  | capitals
  | digits

namespace Shape

/-- The preferred shape has the lowest rank. -/
def rank : Shape → Nat
  | acronym => 0
  | plain => 1
  | capitals => 2
  | digits => 3

/-- A text that goes on with `rest` can begin with the word `w` of a shape. -/
def Fits : Shape → (w rest : List Char) → Prop
  | acronym, w, rest => w ≠ [] ∧ (∀ c ∈ w, isUpper c = true) ∧
      ∃ a b more, rest = a :: b :: more ∧ isUpper a = true ∧ isLower b = true
  | plain, w, _ => ∃ front small, w = front ++ small ∧ (front.length ≤ 1 ∧ ∀ c ∈ front, isUpper c = true) ∧
      small ≠ [] ∧ ∀ c ∈ small, isLower c = true
  | capitals, w, _ => w ≠ [] ∧ ∀ c ∈ w, isUpper c = true
  | digits, w, _ => w ≠ [] ∧ ∀ c ∈ w, isAsciiDigit c = true

end Shape

/-- A text that goes on with `rest` begins with the word `w`: no preferred shape fits at all, and none of its own shape
is longer. -/
structure Leads (shape : Shape) (w rest : List Char) : Prop where
  fits : shape.Fits w rest
  first : ∀ (other : Shape) (v after : List Char), v ++ after = w ++ rest → other.rank < shape.rank →
    ¬other.Fits v after
  longest : ∀ v after : List Char, v ++ after = w ++ rest → shape.Fits v after → v.length ≤ w.length

/-- A text is nothing but these words. -/
inductive Scans : List Char → List (List Char) → Prop where
  | nil : Scans [] []
  | cons {shape : Shape} {w rest : List Char} {ws : List (List Char)} :
      Leads shape w rest → Scans rest ws → Scans (w ++ rest) (w :: ws)

variable {c : Char} {cs w rest : List Char} {ws : List (List Char)} {shape : Shape}

theorem isUpper_iff : isUpper c = true ↔ 65 ≤ c.toNat ∧ c.toNat ≤ 90 := by
  simp [isUpper, Char.le_def, UInt32.le_iff_toNat_le]

theorem isLower_iff : isLower c = true ↔ 97 ≤ c.toNat ∧ c.toNat ≤ 122 := by
  simp [isLower, Char.le_def, UInt32.le_iff_toNat_le]

theorem isAsciiDigit_iff : isAsciiDigit c = true ↔ 48 ≤ c.toNat ∧ c.toNat ≤ 57 := by
  simp [isAsciiDigit, Char.le_def, UInt32.le_iff_toNat_le]

theorem isAsciiLetter_iff : isAsciiLetter c = true ↔ isUpper c = true ∨ isLower c = true := by
  rw [show isAsciiLetter c = (isLower c || isUpper c) from rfl, Bool.or_eq_true, or_comm]

theorem isNameChar_iff : isNameChar c = true ↔ isUpper c = true ∨ isLower c = true ∨ isAsciiDigit c = true := by
  rw [isNameChar, Bool.or_eq_true, isAsciiLetter_iff, or_assoc]

theorem not_isUpper_of_isLower (small : isLower c = true) : isUpper c = false := by
  rw [isLower_iff] at small
  rw [Bool.eq_false_iff, Ne, isUpper_iff]
  omega

theorem not_isUpper_of_isAsciiDigit (digit : isAsciiDigit c = true) : isUpper c = false := by
  rw [isAsciiDigit_iff] at digit
  rw [Bool.eq_false_iff, Ne, isUpper_iff]
  omega

theorem not_isLower_of_isAsciiDigit (digit : isAsciiDigit c = true) : isLower c = false := by
  rw [isAsciiDigit_iff] at digit
  rw [Bool.eq_false_iff, Ne, isLower_iff]
  omega

def capitalCount (cs : List Char) : Nat := (cs.takeWhile isUpper).length
def smallCount (cs : List Char) : Nat := ((cs.drop (capitalCount cs)).takeWhile isLower).length
def digitCount (cs : List Char) : Nat := (cs.takeWhile isAsciiDigit).length

/-- The length of the longest word of a shape with which a text can begin, zero if there is none. -/
def Shape.reach (cs : List Char) : Shape → Nat
  | acronym => if smallCount cs = 0 then 0 else capitalCount cs - 1
  | plain => if 1 < capitalCount cs ∨ smallCount cs = 0 then 0 else capitalCount cs + smallCount cs
  | capitals => capitalCount cs
  | digits => digitCount cs

/-- Capitals are all counted if a small letter ends them. -/
theorem counts_append {caps small : List Char} (rest : List Char) (upper : ∀ c ∈ caps, isUpper c = true)
    (lower : ∀ c ∈ small, isLower c = true) (nonempty : small ≠ []) :
    capitalCount (caps ++ (small ++ rest)) = caps.length ∧
      small.length ≤ smallCount (caps ++ (small ++ rest)) := by
  obtain ⟨b, more, rfl⟩ := List.exists_cons_of_ne_nil nonempty
  have stop : isUpper b = false := not_isUpper_of_isLower (lower b (List.mem_cons_self ..))
  have capitals : capitalCount (caps ++ (b :: more ++ rest)) = caps.length := by
    rw [capitalCount, takeWhile_append_of_stop upper (by simpa using stop)]
  refine ⟨capitals, ?_⟩
  rw [smallCount, capitals, List.drop_left, List.takeWhile_append_of_pos lower, List.length_append]
  omega

/-- No word is longer than its shape reaches. -/
theorem Shape.Fits.length_le (fits : shape.Fits w rest) : 0 < w.length ∧ w.length ≤ shape.reach (w ++ rest) := by
  cases shape with
  | acronym =>
    obtain ⟨nonempty, upper, a, b, more, rfl, last, small⟩ := fits
    -- The capital behind the word is counted with it, so that the word is one short of the count.
    have all : ∀ c ∈ w ++ [a], isUpper c = true := by simpa [or_imp, forall_and] using ⟨upper, last⟩
    have lower : ∀ c ∈ [b], isLower c = true := by simpa using small
    obtain ⟨capitals, behind⟩ := counts_append more all lower (by simp)
    rw [show w ++ [a] ++ ([b] ++ more) = w ++ a :: b :: more by simp] at capitals behind
    have := List.length_pos_iff.mpr nonempty
    simp only [reach, capitals, List.length_append, List.length_singleton] at behind ⊢
    split <;> omega
  | plain =>
    obtain ⟨front, small, rfl, ⟨short, upper⟩, nonempty, lower⟩ := fits
    obtain ⟨capitals, behind⟩ := counts_append rest upper lower nonempty
    have := List.length_pos_iff.mpr nonempty
    simp only [reach, List.append_assoc, capitals, List.length_append]
    split <;> omega
  | capitals =>
    obtain ⟨nonempty, upper⟩ := fits
    rw [reach, capitalCount, List.takeWhile_append_of_pos upper, List.length_append]
    exact ⟨List.length_pos_iff.mpr nonempty, Nat.le_add_right ..⟩
  | digits =>
    obtain ⟨nonempty, digit⟩ := fits
    rw [reach, digitCount, List.takeWhile_append_of_pos digit, List.length_append]
    exact ⟨List.length_pos_iff.mpr nonempty, Nat.le_add_right ..⟩

/-- What is counted stands at the beginning of the text. -/
theorem exists_counted (cs : List Char) : ∃ caps small rest, cs = caps ++ (small ++ rest) ∧
    (∀ c ∈ caps, isUpper c = true) ∧ (∀ c ∈ small, isLower c = true) ∧
      capitalCount cs = caps.length ∧ smallCount cs = small.length := by
  have behind : cs.drop (capitalCount cs) = cs.dropWhile isUpper := calc
    _ = (cs.takeWhile isUpper ++ cs.dropWhile isUpper).drop (capitalCount cs) := by
      rw [List.takeWhile_append_dropWhile]
    _ = cs.dropWhile isUpper := List.drop_left
  refine ⟨cs.takeWhile isUpper, (cs.dropWhile isUpper).takeWhile isLower, (cs.dropWhile isUpper).dropWhile isLower,
    ?_, fun _ => List.mem_takeWhile_imp, fun _ => List.mem_takeWhile_imp, rfl, ?_⟩
  · rw [List.takeWhile_append_dropWhile, List.takeWhile_append_dropWhile]
  · rw [smallCount, behind]

/-- A text begins with a word of every shape that reaches anywhere. -/
theorem Shape.exists_fits (found : 0 < shape.reach cs) :
    ∃ w rest, cs = w ++ rest ∧ w.length = shape.reach cs ∧ shape.Fits w rest := by
  obtain ⟨caps, small, rest, split, upper, lower, capitals, behind⟩ := exists_counted cs
  cases shape with
  | acronym =>
    rw [reach, capitals, behind] at found ⊢
    split at found <;> try contradiction
    next some =>
      obtain ⟨b, more, rfl⟩ := List.exists_cons_of_length_pos (Nat.pos_of_ne_zero some)
      obtain rfl | ⟨front, a, rfl⟩ := caps.eq_nil_or_concat
      · simp at found
      · refine ⟨front, a :: b :: (more ++ rest), by simpa using split, by simp, ?_, ?_, a, b, _, rfl, ?_, ?_⟩
        · rintro rfl
          simp at found
        · exact fun c member => upper c (by simp [member])
        · exact upper a (by simp)
        · exact lower b (List.mem_cons_self ..)
  | plain =>
    rw [reach, capitals, behind] at found ⊢
    split at found <;> try contradiction
    next fits =>
      rw [if_neg fits]
      refine ⟨caps ++ small, rest, by simpa using split, List.length_append, caps, small, rfl, ⟨?_, upper⟩, ?_, lower⟩
      · omega
      · rintro rfl
        simp at fits
  | capitals =>
    rw [reach, capitals] at found ⊢
    exact ⟨caps, small ++ rest, split, rfl, List.length_pos_iff.mp found, upper⟩
  | digits =>
    exact ⟨cs.takeWhile isAsciiDigit, cs.dropWhile isAsciiDigit, List.takeWhile_append_dropWhile.symm, rfl,
      List.length_pos_iff.mp found, fun _ => List.mem_takeWhile_imp⟩

/-- A word leads just if it is as long as its shape reaches and no preferred shape reaches anywhere. -/
theorem leads_append_iff : Leads shape w rest ↔ 0 < w.length ∧ w.length = shape.reach (w ++ rest) ∧
    ∀ other : Shape, other.rank < shape.rank → other.reach (w ++ rest) = 0 := by
  constructor
  · intro lead
    obtain ⟨nonempty, within⟩ := lead.fits.length_le
    obtain ⟨v, after, split, long, fits⟩ := shape.exists_fits (Nat.lt_of_lt_of_le nonempty within)
    have := lead.longest v after split.symm fits
    refine ⟨nonempty, by omega, fun other preferred => ?_⟩
    by_contra found
    obtain ⟨v, after, split, -, fits⟩ := other.exists_fits (Nat.pos_of_ne_zero found)
    exact lead.first other v after split.symm preferred fits
  · rintro ⟨nonempty, reached, others⟩
    obtain ⟨v, after, split, long, fits⟩ := shape.exists_fits (reached ▸ nonempty)
    obtain ⟨rfl, rfl⟩ := List.append_inj split (by omega)
    refine ⟨fits, fun other v after same preferred found => ?_, fun v after same found => ?_⟩
    · have := found.length_le
      rw [same, others other preferred] at this
      omega
    · rw [reached, ← same]
      exact found.length_le.2

theorem wordLength_eq (cs : List Char) : wordLength cs =
    if capitalCount cs = 0 then if smallCount cs = 0 then digitCount cs else smallCount cs
    else if smallCount cs = 0 then capitalCount cs
    else if capitalCount cs = 1 then 1 + smallCount cs else capitalCount cs - 1 := rfl

theorem count_pos (nonempty : cs ≠ []) (proper : ∀ c ∈ cs, isNameChar c = true) :
    0 < capitalCount cs ∨ 0 < smallCount cs ∨ 0 < digitCount cs := by
  obtain ⟨c, cs, rfl⟩ := List.exists_cons_of_ne_nil nonempty
  rcases isNameChar_iff.mp (proper c (List.mem_cons_self ..)) with upper | lower | digit
  · exact .inl (by simp [capitalCount, upper])
  · exact .inr (.inl (by simp [smallCount, capitalCount, not_isUpper_of_isLower lower, lower]))
  · exact .inr (.inr (by simp [digitCount, digit]))

/-- Every character can begin a word, so some shape reaches anywhere, and one of them is the first. -/
theorem exists_reach (nonempty : cs ≠ []) (proper : ∀ c ∈ cs, isNameChar c = true) : ∃ shape : Shape,
    0 < shape.reach cs ∧ ∀ other : Shape, other.rank < shape.rank → other.reach cs = 0 := by
  by_cases acronym : Shape.acronym.reach cs = 0
  · by_cases plain : Shape.plain.reach cs = 0
    · by_cases capitals : Shape.capitals.reach cs = 0
      · refine ⟨.digits, ?_, by rintro ⟨⟩ <;> simp [Shape.rank, acronym, plain, capitals]⟩
        have := count_pos nonempty proper
        simp only [Shape.reach] at acronym plain capitals ⊢
        split at plain <;> omega
      · exact ⟨.capitals, Nat.pos_of_ne_zero capitals, by rintro ⟨⟩ <;> simp [Shape.rank, acronym, plain]⟩
    · exact ⟨.plain, Nat.pos_of_ne_zero plain, by rintro ⟨⟩ <;> simp [Shape.rank, acronym]⟩
  · exact ⟨.acronym, Nat.pos_of_ne_zero acronym, by rintro ⟨⟩ <;> simp [Shape.rank]⟩

/-- The first word is as long as the first shape reaches that reaches anywhere. -/
theorem wordLength_eq_reach (found : 0 < shape.reach cs)
    (others : ∀ other : Shape, other.rank < shape.rank → other.reach cs = 0) : wordLength cs = shape.reach cs := by
  rw [wordLength_eq]
  cases shape with
  | acronym =>
    simp only [Shape.reach] at found ⊢
    split_ifs at * <;> omega
  | plain =>
    simp only [Shape.reach] at found ⊢
    split_ifs at * <;> omega
  | capitals =>
    have acronym := others .acronym (by decide)
    have plain := others .plain (by decide)
    simp only [Shape.reach] at found acronym plain ⊢
    split_ifs at * <;> omega
  | digits =>
    have plain := others .plain (by decide)
    have capitals := others .capitals (by decide)
    simp only [Shape.reach] at found plain capitals ⊢
    split_ifs at * <;> omega

theorem Leads.wordLength_eq (lead : Leads shape w rest) : wordLength (w ++ rest) = w.length := by
  obtain ⟨nonempty, reached, others⟩ := leads_append_iff.mp lead
  rw [wordLength_eq_reach (reached ▸ nonempty) others, reached]

theorem Leads.wordsOf_eq (lead : Leads shape w rest) : wordsOf (w ++ rest) = w :: wordsOf rest := by
  have nonempty := lead.fits.length_le.1
  have long := lead.wordLength_eq
  rw [wordsOf, dif_neg (by rw [long, List.append_eq_nil_iff, ← List.length_eq_zero_iff]; omega), long,
    List.take_left, List.drop_left]

theorem exists_leads (nonempty : cs ≠ []) (proper : ∀ c ∈ cs, isNameChar c = true) :
    ∃ shape w rest, cs = w ++ rest ∧ Leads shape w rest := by
  obtain ⟨shape, found, others⟩ := exists_reach nonempty proper
  obtain ⟨w, rest, rfl, long, -⟩ := shape.exists_fits found
  exact ⟨shape, w, rest, rfl, leads_append_iff.mpr ⟨long ▸ found, long, others⟩⟩

@[simp] theorem wordsOf_nil : wordsOf [] = [] := by simp [wordsOf]

/-- A row of letters and digits is nothing but its words, and it is that in one way only. -/
theorem scans_iff (proper : ∀ c ∈ cs, isNameChar c = true) : Scans cs ws ↔ wordsOf cs = ws := by
  constructor
  · intro scan
    induction scan with
    | nil => exact wordsOf_nil
    | cons lead _ ih => rw [lead.wordsOf_eq, ih (List.forall_mem_append.mp proper).2]
  · rintro rfl
    -- What is left is shorter by the first word, which is not empty.
    induction long : cs.length using Nat.strong_induction_on generalizing cs with
    | _ n ih =>
      by_cases empty : cs = []
      · subst empty
        simpa using Scans.nil
      · obtain ⟨shape, w, rest, rfl, lead⟩ := exists_leads empty proper
        have shorter : rest.length < n := by
          have := lead.fits.length_le.1
          rw [← long, List.length_append]
          omega
        rw [lead.wordsOf_eq]
        exact .cons lead (ih _ shorter (List.forall_mem_append.mp proper).2 rfl)

theorem Scans.flatten_eq (scan : Scans cs ws) : ws.flatten = cs := by
  induction scan with
  | nil => rfl
  | cons _ _ ih => rw [List.flatten_cons, ih]

/-- A word has characters, either letters or digits. -/
theorem Shape.Fits.uniform (fits : shape.Fits w rest) :
    w ≠ [] ∧ ((∀ c ∈ w, isAsciiLetter c = true) ∨ ∀ c ∈ w, isAsciiDigit c = true) := by
  refine ⟨List.length_pos_iff.mp fits.length_le.1, ?_⟩
  cases shape with
  | acronym => exact .inl fun c member => isAsciiLetter_iff.mpr (.inl (fits.2.1 c member))
  | plain =>
    obtain ⟨front, small, rfl, ⟨-, upper⟩, -, lower⟩ := fits
    refine .inl fun c member => isAsciiLetter_iff.mpr ?_
    exact (List.mem_append.mp member).imp (upper c) (lower c)
  | capitals => exact .inl fun c member => isAsciiLetter_iff.mpr (.inl (fits.2 c member))
  | digits => exact .inr fits.2

theorem Scans.uniform (scan : Scans cs ws) :
    ∀ w ∈ ws, w ≠ [] ∧ ((∀ c ∈ w, isAsciiLetter c = true) ∨ ∀ c ∈ w, isAsciiDigit c = true) := by
  induction scan with
  | nil => simp
  | cons lead _ ih => exact List.forall_mem_cons.mpr ⟨lead.fits.uniform, ih⟩

theorem leads_of_isLower (nonempty : w ≠ []) (lower : ∀ c ∈ w, isLower c = true) : Leads .plain w [] := by
  have capitals : capitalCount w = 0 := by
    obtain ⟨c, more, rfl⟩ := List.exists_cons_of_ne_nil nonempty
    simp [capitalCount, not_isUpper_of_isLower (lower c (List.mem_cons_self ..))]
  have small : smallCount w = w.length := by
    rw [smallCount, capitals, List.drop_zero, List.takeWhile_eq_self_iff.mpr lower]
  rw [leads_append_iff, List.append_nil]
  refine ⟨List.length_pos_iff.mpr nonempty, by simp [Shape.reach, capitals, small, nonempty], ?_⟩
  rintro ⟨⟩ <;> simp [Shape.rank, Shape.reach, capitals]

theorem leads_of_isAsciiDigit (nonempty : w ≠ []) (digits : ∀ c ∈ w, isAsciiDigit c = true) :
    Leads .digits w [] := by
  have others : capitalCount w = 0 ∧ smallCount w = 0 := by
    obtain ⟨c, more, rfl⟩ := List.exists_cons_of_ne_nil nonempty
    have digit := digits c (List.mem_cons_self ..)
    simp [capitalCount, smallCount, not_isUpper_of_isAsciiDigit digit, not_isLower_of_isAsciiDigit digit]
  rw [leads_append_iff, List.append_nil]
  refine ⟨List.length_pos_iff.mpr nonempty, ?_, ?_⟩
  · rw [Shape.reach, digitCount, List.takeWhile_eq_self_iff.mpr digits]
  · rintro ⟨⟩ <;> simp [Shape.rank, Shape.reach, others]

theorem parts_eq (cs : List Char) : parts cs = cs.splitOnP (!isNameChar ·) := by
  induction cs with
  | nil => rfl
  | cons c cs ih =>
    obtain ⟨part, more, split⟩ := List.exists_cons_of_ne_nil (List.splitOnP_ne_nil (!isNameChar ·) cs)
    rw [parts, ih, List.splitOnP_cons_eq_if_modifyHead, split]
    by_cases proper : isNameChar c = true
    · simp [proper]
    · simp [proper]

theorem flatten_parts (cs : List Char) : (parts cs).flatten = cs.filter isNameChar := by
  induction cs with
  | nil => rfl
  | cons c cs ih =>
    rw [parts]
    split
    next proper =>
      rw [List.filter_cons_of_pos proper, ← ih]
      cases parts cs <;> rfl
    next other => rw [List.filter_cons_of_neg other, ← ih, List.flatten_cons, List.nil_append]

theorem isNameChar_of_mem_parts {part : List Char} (member : part ∈ parts cs) : ∀ c ∈ part, isNameChar c = true := by
  intro c inside
  have kept : c ∈ cs.filter isNameChar := flatten_parts cs ▸ List.mem_flatten_of_mem member inside
  exact (List.mem_filter.mp kept).2

def Spells (name : String) (ws : List (List Char)) : Prop :=
  ∃ found, List.Forall₂ Scans (name.toList.splitOnP (!isNameChar ·)) found ∧ ws = found.flatten

theorem forall₂_scans_iff {ps : List (List Char)} {found : List (List (List Char))}
    (proper : ∀ part ∈ ps, ∀ c ∈ part, isNameChar c = true) :
    List.Forall₂ Scans ps found ↔ found = ps.map wordsOf := by
  induction ps generalizing found with
  | nil => simp
  | cons part ps ih =>
    obtain ⟨here, later⟩ := List.forall_mem_cons.mp proper
    cases found with
    | nil => simp
    | cons ws found =>
      rw [List.forall₂_cons, scans_iff here, ih later, List.map_cons, List.cons.injEq, eq_comm]

theorem spells_iff {name : String} : Spells name ws ↔ ws = words name := by
  have proper (part : List Char) (member : part ∈ parts name.toList) := isNameChar_of_mem_parts member
  simp only [Spells, ← parts_eq, forall₂_scans_iff proper, exists_eq_left, words, List.flatMap_def]

example : words "HTTPServer_404" = ["HTTP".toList, "Server".toList, "404".toList] := by decide +kernel

theorem scans_wordsOf {part : List Char} (member : part ∈ parts cs) : Scans part (wordsOf part) :=
  (scans_iff (isNameChar_of_mem_parts member)).mpr rfl

theorem flatten_words (name : String) : (words name).flatten = name.toList.filter isNameChar := by
  have whole : ∀ part ∈ parts name.toList, (List.flatten ∘ wordsOf) part = id part :=
    fun part member => (scans_wordsOf member).flatten_eq
  rw [words, List.flatMap_def, List.flatten_flatten, List.map_map, List.map_congr_left whole, List.map_id,
    flatten_parts]

theorem uniform_of_mem_words {name : String} : ∀ w ∈ words name,
    w ≠ [] ∧ ((∀ c ∈ w, isAsciiLetter c = true) ∨ ∀ c ∈ w, isAsciiDigit c = true) := by
  intro w member
  obtain ⟨part, row, inside⟩ := List.mem_flatMap.mp member
  exact (scans_wordsOf row).uniform w inside

end ChangeLens.Stem
