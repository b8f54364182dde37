import ChangeLens.Proofs.Change.Words
import ChangeLens.Proofs.Text.Lowercase

/-! The stems of a name. A separator keeps the words on its two sides apart, and a stem is the only stem of itself. -/
namespace ChangeLens.Stem

open Text

variable {c : Char} {cs w : List Char} {name stem : String}

theorem flatMap_parts_skip {between : List Char} (apart : ∀ c ∈ between, isNameChar c = false) (after : List Char) :
    (parts (between ++ after)).flatMap wordsOf = (parts after).flatMap wordsOf := by
  induction between with
  | nil => rfl
  | cons c between ih =>
    obtain ⟨here, later⟩ := List.forall_mem_cons.mp apart
    simp [parts, here, ih later]

/-- One character of the separator is enough to end the words in front of it. -/
theorem flatMap_parts_append {between : List Char} (nonempty : between ≠ [])
    (apart : ∀ c ∈ between, isNameChar c = false) (before after : List Char) :
    (parts (before ++ (between ++ after))).flatMap wordsOf =
      (parts before).flatMap wordsOf ++ (parts after).flatMap wordsOf := by
  obtain ⟨c, more, rfl⟩ := List.exists_cons_of_ne_nil nonempty
  obtain ⟨first, others⟩ := List.forall_mem_cons.mp apart
  rw [parts_eq, List.cons_append, List.splitOnP_append_cons _ _ (by simpa using first), List.flatMap_append,
    ← parts_eq, ← parts_eq, flatMap_parts_skip others]

theorem words_append {x s y : String} (nonempty : s ≠ "") (apart : ∀ c ∈ s.toList, isNameChar c = false) :
    words (x ++ s ++ y) = words x ++ words y := by
  rw [words, String.toList_append, String.toList_append, List.append_assoc]
  exact flatMap_parts_append (by simpa using nonempty) apart ..

/-- The words that are long enough, in small letters. -/
theorem mem_stems : stem ∈ stems name ↔
    ∃ w ∈ words name, minLength ≤ w.length ∧ String.ofList (w.map lowerChar) = stem := by
  simp [stems, mem_sortDistinct, and_assoc]

theorem isSmall_of_isAscii (low : c.toNat < 128) (small : isUpper c = false) : IsSmall c := by
  refine ⟨by omega, List.forall_mem_cons.mpr ⟨?_, fun run member => ?_⟩⟩
  · exact Bool.eq_false_iff.mpr (mt isAsciiCapital_iff.mpr (Bool.eq_false_iff.mp small))
  · have := least_caseRuns run member
    rw [Bool.eq_false_iff, Ne, CaseRun.contains_iff]
    omega

theorem isSmall_of_isLower (small : isLower c = true) : IsSmall c :=
  isSmall_of_isAscii (by have := isLower_iff.mp small; omega) (not_isUpper_of_isLower small)

theorem isSmall_of_isAsciiDigit (digit : isAsciiDigit c = true) : IsSmall c :=
  isSmall_of_isAscii (by have := isAsciiDigit_iff.mp digit; omega) (not_isUpper_of_isAsciiDigit digit)

theorem isLower_lowerChar (letter : isAsciiLetter c = true) : isLower (lowerChar c) = true := by
  rcases isAsciiLetter_iff.mp letter with upper | lower
  · have range := isUpper_iff.mp upper
    have proper : (c.toNat + 32).isValidChar := .inl (by omega)
    have shifted : (lowerChar c).toNat = c.toNat + 32 := by
      rw [lowerChar, if_pos (show ('A' ≤ c && c ≤ 'Z') = true from upper), Char.ofNat, dif_pos proper]
      rfl
    rw [isLower_iff, shifted]
    omega
  · rwa [lowerChar_of_isSmall (isSmall_of_isLower lower)]

/-- A long word in small letters, or a long number. -/
structure Settled (stem : String) : Prop where
  long : minLength ≤ stem.length
  uniform : (∀ c ∈ stem.toList, isLower c = true) ∨ ∀ c ∈ stem.toList, isAsciiDigit c = true

theorem settled_of_mem_stems (member : stem ∈ stems name) : Settled stem := by
  obtain ⟨w, word, long, rfl⟩ := mem_stems.mp member
  refine ⟨by simpa using long, ?_⟩
  rw [String.toList_ofList, List.forall_mem_map, List.forall_mem_map]
  refine (uniform_of_mem_words w word).2.imp (fun letters c inside => ?_) fun digits c inside => ?_
  · exact isLower_lowerChar (letters c inside)
  · rw [lowerChar_of_isSmall (isSmall_of_isAsciiDigit (digits c inside))]
    exact digits c inside

namespace Settled

theorem isSmall (settled : Settled stem) : ∀ c ∈ stem.toList, IsSmall c := by
  intro c inside
  rcases settled.uniform with lower | digits
  · exact isSmall_of_isLower (lower c inside)
  · exact isSmall_of_isAsciiDigit (digits c inside)

theorem lower_eq (settled : Settled stem) : lower stem = stem := by
  rw [lower, lowerFrom_of_isSmall settled.isSmall, String.ofList_toList]

theorem isNameChar (settled : Settled stem) : ∀ c ∈ stem.toList, isNameChar c = true := by
  intro c inside
  rw [isNameChar_iff]
  rcases settled.uniform with lower | digits
  · exact .inr (.inl (lower c inside))
  · exact .inr (.inr (digits c inside))

theorem wordsOf_eq (settled : Settled stem) : wordsOf stem.toList = [stem.toList] := by
  have nonempty : stem.toList ≠ [] := by
    have := settled.long
    rw [← List.length_pos_iff, String.length_toList]
    exact Nat.lt_of_lt_of_le (by decide) this
  have lead : ∃ shape, Leads shape stem.toList [] := settled.uniform.elim
    (fun lower => ⟨_, leads_of_isLower nonempty lower⟩) fun digits => ⟨_, leads_of_isAsciiDigit nonempty digits⟩
  obtain ⟨shape, lead⟩ := lead
  simpa using lead.wordsOf_eq

theorem words_eq (settled : Settled stem) : words stem = [stem.toList] := by
  rw [words, parts_eq, List.splitOnP_eq_singleton (by simpa using settled.isNameChar), List.flatMap_singleton,
    settled.wordsOf_eq]

end Settled

/-- The texts that are the only stems of themselves. -/
theorem stems_eq_singleton_iff : stems stem = [stem] ↔ Settled stem := by
  constructor
  · intro alone
    have member : stem ∈ stems stem := by rw [alone, List.mem_singleton]
    exact settled_of_mem_stems member
  · intro settled
    have same : String.ofList (stem.toList.map lowerChar) = stem := by
      rw [List.map_congr_left fun c inside => lowerChar_of_isSmall (settled.isSmall c inside), List.map_id',
        String.ofList_toList]
    have long : minLength ≤ stem.toList.length := String.length_toList ▸ settled.long
    simp [stems, settled.words_eq, long, same, sortDistinct, consNew]

/-- The words of a name are all there is of it but for what stands between them. Hence the stems on the two sides of a
separator are the stems of the whole, and every stem is in small letters, long, and its own only stem. -/
theorem words_lossless_stems_homomorphic :
    (∀ (name : String) (ws : List (List Char)), Spells name ws ↔ ws = words name) ∧
    (∀ name : String, (words name).flatten = name.toList.filter isNameChar ∧
      ∀ w ∈ words name, w ≠ [] ∧ ((∀ c ∈ w, isAsciiLetter c = true) ∨ ∀ c ∈ w, isAsciiDigit c = true)) ∧
    (∀ x s y : String, s ≠ "" → (∀ c ∈ s.toList, isNameChar c = false) →
      ∀ stem, stem ∈ stems (x ++ s ++ y) ↔ stem ∈ stems x ∨ stem ∈ stems y) ∧
    ∀ name : String, ∀ stem ∈ stems name,
      ((∀ c ∈ stem.toList, isLower c = true) ∨ ∀ c ∈ stem.toList, isAsciiDigit c = true) ∧
        lower stem = stem ∧ 4 ≤ stem.length ∧ stems stem = [stem] := by
  refine ⟨fun _ _ => spells_iff, fun name => ⟨flatten_words name, uniform_of_mem_words⟩, ?_, ?_⟩
  · intro x s y nonempty apart stem
    simp only [mem_stems, words_append nonempty apart, List.mem_append, or_and_right, exists_or]
  · intro name stem member
    have settled := settled_of_mem_stems member
    exact ⟨settled.uniform, settled.lower_eq, settled.long, stems_eq_singleton_iff.mpr settled⟩

theorem words_lossless_stems_homomorphic_response :
    ("_é." ≠ "" ∧ (∀ c ∈ "_é.".toList, isNameChar c = false) ∧
      ∀ stem, stem ∈ stems ("HTTPServer" ++ "_é." ++ "parse404Response") ↔
        stem ∈ stems "HTTPServer" ∨ stem ∈ stems "parse404Response") ∧
    "response" ∈ stems "parse404Response" ∧ stems "response" = ["response"] := by
  have member : "response" ∈ stems "parse404Response" :=
    mem_stems.mpr ⟨"Response".toList, by decide +kernel, by decide, by decide⟩
  have apart : ∀ c ∈ "_é.".toList, isNameChar c = false := by
    have none : "_é.".toList.any isNameChar = false := by decide
    simpa only [List.any_eq_false, Bool.not_eq_true] using none
  obtain ⟨-, -, joined, settled⟩ := words_lossless_stems_homomorphic
  exact ⟨⟨by decide, apart, joined _ _ _ (by decide) apart⟩, member, (settled _ _ member).2.2.2⟩

end ChangeLens.Stem
