import ChangeLens.Import.Scan
import ChangeLens.Proofs.Import.Names
import Mathlib.Data.List.Flatten
import Mathlib.Data.List.Nodup
import Mathlib.Data.List.Perm.Basic

/-! Scanning a text piece by piece. Where a pattern fits at no place of a piece, the scan passes over the piece; where
it fits, the scan goes on behind what it takes. So what is found in a text of statements on lines of their own is what
is found in each of them, and the finds of several patterns merge into the order of the statements. -/
namespace ChangeLens.Import

variable {s : Scanner α} {before : Option Char} {place : Nat}

/-- The last character of a piece of text, or the one before it if the piece is empty. -/
def behind (before : Option Char) (cs : List Char) : Option Char := cs.getLast?.or before

theorem scan_nil : scan s place before [] = [] := by rw [scan]

theorem scan_pass {c : Char} {rest : List Char} (fails : s before (c :: rest) = none) :
    scan s place before (c :: rest) = scan s (place + 1) (some c) rest := by
  rw [scan]
  simp only [fails]

theorem scan_find {a : α} {taken after : List Char} (nonempty : taken ≠ [])
    (found : s before (taken ++ after) = some (a, after)) :
    scan s place before (taken ++ after) =
      (place, a) :: scan s (place + taken.length) (behind before taken) after := by
  obtain ⟨c, taken, rfl⟩ := List.exists_cons_of_ne_nil nonempty
  rw [List.cons_append] at found ⊢
  rw [scan]
  simp only [found]
  have shorter : after.length ≤ (taken ++ after).length := by simp
  have length : (c :: (taken ++ after)).length - after.length = (c :: taken).length := by
    simp only [List.length_cons, List.length_append]
    omega
  have last : (c :: (taken ++ after))[(c :: taken).length - 1]? = behind before (c :: taken) := by
    rw [behind, List.getLast?_eq_getElem?, ← List.cons_append, List.getElem?_append_left (by simp)]
    simp
  rw [if_pos shorter, length, last]

/-- A pattern that fits at no place of a piece of text, whatever stands before it and with `rest` behind it. -/
def Silent (s : Scanner α) : Option Char → List Char → List Char → Prop
  | _, [], _ => True
  | before, c :: cs, rest => s before (c :: (cs ++ rest)) = none ∧ Silent s (some c) cs rest

theorem scan_silent {cs rest : List Char} (silent : Silent s before cs rest) :
    scan s place before (cs ++ rest) = scan s (place + cs.length) (behind before cs) rest := by
  induction cs generalizing place before with
  | nil => rfl
  | cons c cs ih =>
    obtain ⟨fails, later⟩ := silent
    rw [List.cons_append, scan_pass fails, ih later, List.length_cons, Nat.add_assoc, Nat.add_comm 1]
    congr 1
    cases cs <;> simp [behind, List.getLast?_cons]

theorem Silent.append {cs more rest : List Char} (first : Silent s before cs (more ++ rest))
    (second : Silent s (behind before cs) more rest) : Silent s before (cs ++ more) rest := by
  induction cs generalizing before with
  | nil => exact second
  | cons c cs ih =>
    obtain ⟨fails, later⟩ := first
    refine ⟨by simpa using fails, ih later ?_⟩
    cases cs with
    | nil => simpa [behind] using second
    | cons d ds => simpa [behind, List.getLast?_cons] using second

/-- It is enough to look at the non-empty ends of a piece of text. -/
theorem silent_of_suffix {cs rest : List Char}
    (fails : ∀ before tail, tail ≠ [] → tail <:+ cs → s before (tail ++ rest) = none) : Silent s before cs rest := by
  induction cs generalizing before with
  | nil => trivial
  | cons c cs ih =>
    refine ⟨fails before (c :: cs) (List.cons_ne_nil _ _) (List.suffix_refl _), ih ?_⟩
    intro before tail nonempty suffix
    exact fails before tail nonempty (suffix.trans (List.suffix_cons c cs))

theorem silent_of_notMem_newline (bound : ∀ before cs, atLineStart before = false → s before cs = none)
    {cs rest : List Char} {c : Char} (inside : c ≠ '\n') (oneLine : '\n' ∉ cs) : Silent s (some c) cs rest := by
  induction cs generalizing c with
  | nil => trivial
  | cons d cs ih =>
    obtain ⟨here, later⟩ := not_or.mp (mt List.mem_cons.mpr oneLine)
    exact ⟨bound _ _ (by simpa [atLineStart] using inside), ih (Ne.symm here) later⟩

/-- A text between quotes is read up to the closing quote. -/
theorem quotedSpecifier?_quoted {quote : Char} (mark : quote = '\'' ∨ quote = '"') {specifier : List Char}
    (nonempty : specifier ≠ []) (inner : ∀ c ∈ specifier, (c != '\'' && c != '"' && c != '\n') = true)
    (rest : List Char) : quotedSpecifier? (quote :: (specifier ++ quote :: rest)) = some (specifier, rest) := by
  have closing : ∀ c ∈ (quote :: rest).head?, (c != '\'' && c != '"' && c != '\n') = false := by
    intro c first
    obtain rfl := Option.some.inj first
    rcases mark with same | same <;> rw [same] <;> rfl
  have otherLine : quote ≠ '\n' := by
    rcases mark with same | same <;> rw [same] <;> decide
  obtain ⟨c, cs, equal⟩ := List.exists_cons_of_ne_nil nonempty
  rw [quotedSpecifier?]
  simp only [if_pos mark, Text.takeWhile_append_of_stop inner closing, Text.dropWhile_append_of_stop inner closing]
  rw [equal]
  simp only [if_neg otherLine]

/-- Nothing, or another line. -/
def LineEnd (tail : List Char) : Prop := ∀ c ∈ tail.head?, c = '\n'

theorem LineEnd.stops {tail : List Char} (line : LineEnd tail) {p : Char → Bool} (newline : p '\n' = false) :
    ∀ c ∈ tail.head?, p c = false := by
  intro c first
  rw [line c first]
  exact newline

/-- What a pattern finds in a piece of text that has its lines for itself; places count from its beginning. -/
def Finds (s : Scanner α) (cs : List Char) (found : List (Nat × α)) : Prop :=
  ∀ place before tail, atLineStart before = true → LineEnd tail →
    scan s place before (cs ++ tail) =
      found.map (fun f => (place + f.1, f.2)) ++ scan s (place + cs.length) (behind before cs) tail

theorem finds_nil {cs : List Char}
    (silent : ∀ before tail, atLineStart before = true → LineEnd tail → Silent s before cs tail) :
    Finds s cs [] := by
  intro place before tail start ends
  exact scan_silent (silent before tail start ends)

/-- One find, with a piece before it and another behind it in which nothing is found. -/
theorem finds_single {a : α} {lead taken rest : List Char} (nonempty : taken ≠ [])
    (silent : ∀ before tail, atLineStart before = true → LineEnd tail → Silent s before lead (taken ++ (rest ++ tail)))
    (found : ∀ before tail, atLineStart before = true → LineEnd tail →
      s (behind before lead) (taken ++ (rest ++ tail)) = some (a, rest ++ tail))
    (after : ∀ before tail, LineEnd tail → Silent s before rest tail) :
    Finds s (lead ++ (taken ++ rest)) [(lead.length, a)] := by
  intro place before tail start ends
  have joined (xs ys : List Char) : behind (behind before xs) ys = behind before (xs ++ ys) := by
    simp only [behind, List.getLast?_append, Option.or_assoc]
  rw [List.append_assoc, List.append_assoc, scan_silent (silent before tail start ends),
    scan_find nonempty (found before tail start ends), scan_silent (after _ tail ends), joined, joined]
  simp [Nat.add_assoc]

/-- One find, at the beginning. -/
theorem finds_first {a : α} {taken rest : List Char} (nonempty : taken ≠ [])
    (found : ∀ before tail, atLineStart before = true → LineEnd tail →
      s before (taken ++ (rest ++ tail)) = some (a, rest ++ tail))
    (after : ∀ before tail, LineEnd tail → Silent s before rest tail) : Finds s (taken ++ rest) [(0, a)] := by
  have whole : Finds s ([] ++ (taken ++ rest)) [([].length, a)] :=
    finds_single nonempty (fun _ _ _ _ => trivial) found after
  exact whole

theorem finds_all {a : α} {taken : List Char} (nonempty : taken ≠ [])
    (found : ∀ before tail, atLineStart before = true → LineEnd tail → s before (taken ++ tail) = some (a, tail)) :
    Finds s taken [(0, a)] := by
  rw [← List.append_nil taken]
  exact finds_first nonempty found fun _ _ _ => trivial

section

variable {σ : Type} (chars : σ → List Char)

/-- What follows a statement if some more come after it. The last line may lack its end. -/
def written.after (ended : Bool) : List σ → List Char
  | [] => if ended then ['\n'] else []
  | x :: xs => '\n' :: (chars x ++ after ended xs)

/-- The text of some statements, each on lines of its own. -/
def written (ended : Bool) : List σ → List Char
  | [] => []
  | x :: xs => chars x ++ written.after chars ended xs

/-- The statements with the places at which they begin. -/
def placesFrom (place : Nat) : List σ → List (Nat × σ)
  | [] => []
  | x :: xs => (place, x) :: placesFrom (place + (chars x).length + 1) xs

variable {chars}

theorem lineEnd_after (ended : Bool) (xs : List σ) : LineEnd (written.after chars ended xs) := by
  intro c first
  cases xs with
  | nil =>
    cases ended with
    | false => contradiction
    | true => exact (Option.some.inj first).symm
  | cons x xs => exact (Option.some.inj first).symm

theorem map_snd_placesFrom (place : Nat) (xs : List σ) : (placesFrom chars place xs).map (·.2) = xs := by
  induction xs generalizing place with
  | nil => rfl
  | cons x xs ih => simp [placesFrom, ih]

theorem le_of_mem_placesFrom {place : Nat} {xs : List σ} {p : Nat × σ} (member : p ∈ placesFrom chars place xs) :
    place ≤ p.1 := by
  induction xs generalizing place with
  | nil => contradiction
  | cons x xs ih =>
    rcases List.mem_cons.mp member with rfl | later
    · exact Nat.le_refl _
    · have := ih later
      omega

theorem pairwise_placesFrom (place : Nat) (xs : List σ) :
    (placesFrom chars place xs).Pairwise fun a b => a.1 + (chars a.2).length < b.1 := by
  induction xs generalizing place with
  | nil => exact .nil
  | cons x xs ih =>
    refine List.pairwise_cons.mpr ⟨fun p member => ?_, ih _⟩
    exact Nat.lt_of_succ_le (le_of_mem_placesFrom member)

variable {found : σ → List (Nat × α)}

theorem scan_after (quiet : ∀ before rest, s before ('\n' :: rest) = none) (each : ∀ x, Finds s (chars x) (found x))
    (ended : Bool) (xs : List σ) : scan s place before (written.after chars ended xs) =
      (placesFrom chars (place + 1) xs).flatMap fun p => (found p.2).map fun f => (p.1 + f.1, f.2) := by
  induction xs generalizing place before with
  | nil =>
    cases ended with
    | false => exact scan_nil
    | true => exact (scan_pass (quiet before [])).trans scan_nil
  | cons x xs ih =>
    rw [written.after, scan_pass (quiet before _), each x _ _ _ rfl (lineEnd_after ended xs), ih]
    rfl

theorem scan_written (quiet : ∀ before rest, s before ('\n' :: rest) = none) (each : ∀ x, Finds s (chars x) (found x))
    (ended : Bool) (xs : List σ) : scan s 0 none (written chars ended xs) =
      (placesFrom chars 0 xs).flatMap fun p => (found p.2).map fun f => (p.1 + f.1, f.2) := by
  cases xs with
  | nil => exact scan_nil
  | cons x xs =>
    rw [written, each x _ _ _ rfl (lineEnd_after ended xs), scan_after quiet each]
    rfl

end

/-- Finds that come at different places are put into the order of their places, wherever they were found. -/
theorem inOrder_eq {found all : List (Nat × α)} (perm : found.Perm all)
    (sorted : all.Pairwise fun a b => a.1 < b.1) : inOrder found = all.map (·.2) := by
  have merged : (found.mergeSort fun a b => a.1 ≤ b.1).Pairwise fun a b => a.1 ≤ b.1 := by
    have sorts : (found.mergeSort fun a b => a.1 ≤ b.1).Pairwise fun a b => decide (a.1 ≤ b.1) = true := by
      apply List.pairwise_mergeSort
      · intro a b c ab bc
        simp only [decide_eq_true_eq] at *
        omega
      · intro a b
        simp only [Bool.or_eq_true, decide_eq_true_eq]
        omega
    simpa using sorts
  have places : (all.map (·.1)).Nodup := List.pairwise_map.mpr (sorted.imp Nat.ne_of_lt)
  have perm := (List.mergeSort_perm found fun a b => a.1 ≤ b.1).trans perm
  have same : (found.mergeSort fun a b => a.1 ≤ b.1) = all := by
    -- No two finds share a place, so only one order of them is sorted.
    refine List.Perm.eq_of_pairwise ?_ merged (sorted.imp Nat.le_of_lt) perm
    intro a b first second ab ba
    exact List.inj_on_of_nodup_map places (perm.mem_iff.mp first) second (Nat.le_antisymm ab ba)
  rw [inOrder, same]

section

variable {σ ι : Type} {chars : σ → List Char} {scanner : ι → Scanner α} {patterns : List ι}
  {found : ι → σ → List (Nat × α)} {offset : σ → Nat} {value : σ → α}

/-- If some patterns together find one thing in each statement, then merged they find the things in the order of the
statements. -/
theorem inOrder_written (quiet : ∀ p before rest, scanner p before ('\n' :: rest) = none)
    (each : ∀ p x, Finds (scanner p) (chars x) (found p x))
    (one : ∀ x, patterns.flatMap (found · x) = [(offset x, value x)]) (inside : ∀ x, offset x ≤ (chars x).length)
    (ended : Bool) (xs : List σ) :
    inOrder (patterns.flatMap fun p => findAll (scanner p) (.ofList (written chars ended xs))) = xs.map value := by
  let places := placesFrom chars 0 xs
  let moved (place : Nat) (f : Nat × α) := (place + f.1, f.2)
  have scans (p : ι) : findAll (scanner p) (.ofList (written chars ended xs)) =
      places.flatMap fun x => (found p x.2).map (moved x.1) := by
    rw [findAll, String.toList_ofList]
    exact scan_written (quiet p) (each p) ended xs
  -- The finds come pattern by pattern; statement by statement they are the same ones.
  have swapped (ps : List ι) : (ps.flatMap fun p => places.flatMap fun x => (found p x.2).map (moved x.1)).Perm
      (places.flatMap fun x => ps.flatMap fun p => (found p x.2).map (moved x.1)) := by
    induction ps with
    | nil => simp
    | cons p ps ih => exact (ih.append_left _).trans (List.flatMap_append_perm ..)
  have single (x : Nat × σ) : (patterns.flatMap fun p => (found p x.2).map (moved x.1)) =
      [(x.1 + offset x.2, value x.2)] := by
    rw [← List.map_flatMap, one]
    rfl
  have merged : (patterns.flatMap fun p => findAll (scanner p) (.ofList (written chars ended xs))).Perm
      (places.map fun x => (x.1 + offset x.2, value x.2)) := by
    simp only [scans]
    rw [List.map_eq_flatMap]
    simpa only [single] using swapped patterns
  have sorted : (places.map fun x => (x.1 + offset x.2, value x.2)).Pairwise fun a b => a.1 < b.1 := by
    refine List.pairwise_map.mpr ((pairwise_placesFrom 0 xs).imp ?_)
    intro a b apart
    have := inside a.2
    dsimp only
    omega
  have texts : places.map (value ∘ (·.2)) = xs.map value := by
    rw [← List.map_map, map_snd_placesFrom]
  rw [inOrder_eq merged sorted, List.map_map, ← texts]
  rfl

end

end ChangeLens.Import
