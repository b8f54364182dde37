import ChangeLens.Text.Blank
import ChangeLens.Text.Split
import Mathlib.Data.List.DropRight
import Mathlib.Data.List.TakeWhile

/-! Cutting a text into pieces, joining them again, and dropping characters at its ends. Joining undoes cutting, and
cutting undoes joining where no piece holds the separator. -/
namespace ChangeLens.Text

theorem toList_joinWith (sep : Char) (parts : List String) :
    (joinWith (.singleton sep) parts).toList = [sep].intercalate (parts.map String.toList) := by
  simp [joinWith, String.toList_intercalate]

theorem joinWith_splitAt (sep : Char) (s : String) : joinWith (.singleton sep) (splitAt sep s) = s := by
  apply String.toList_injective
  simp [toList_joinWith, splitAt, Function.comp_def, List.intercalate_splitOn]

theorem splitAt_joinWith {sep : Char} {parts : List String} (fresh : ∀ p ∈ parts, sep ∉ p.toList)
    (nonempty : parts ≠ []) : splitAt sep (joinWith (.singleton sep) parts) = parts := by
  rw [splitAt, toList_joinWith, List.splitOn_intercalate _ (by simpa using fresh) (by simpa using nonempty)]
  simp [Function.comp_def]

theorem splitAt_intercalate {sep : Char} {parts : List (List Char)} (fresh : ∀ p ∈ parts, sep ∉ p)
    (nonempty : parts ≠ []) : splitAt sep (.ofList ([sep].intercalate parts)) = parts.map .ofList := by
  rw [splitAt, String.toList_ofList, List.splitOn_intercalate _ fresh nonempty]

theorem joinWith_concat_append (sep : String) (parts : List String) (s t : String) :
    joinWith sep (parts ++ [s]) ++ t = joinWith sep (parts ++ [s ++ t]) := by
  cases parts with
  | nil => simp [joinWith]
  | cons p ps =>
    have nonempty := List.cons_ne_nil p ps
    rw [joinWith, joinWith, String.intercalate_append_of_ne_nil nonempty (List.cons_ne_nil _ _),
      String.intercalate_append_of_ne_nil nonempty (List.cons_ne_nil _ _), String.intercalate_singleton,
      String.intercalate_singleton, String.append_assoc]

theorem joinWith_ne_empty {sep : String} {parts : List String} {s : String} (member : s ∈ parts)
    (solid : s ≠ "") (divides : sep ≠ "") : joinWith sep parts ≠ "" := by
  match parts, member with
  | [t], member => simpa [joinWith, ← List.mem_singleton.mp member] using solid
  | t :: u :: rest, _ => simp [joinWith, String.intercalate_cons_cons, divides]

theorem intercalate_concat (sep : Char) (parts : List (List Char)) (last : List Char) :
    [sep].intercalate (parts ++ [last]) = parts.flatMap (· ++ [sep]) ++ last := by
  induction parts with
  | nil => simp
  | cons part parts ih =>
    rw [List.cons_append, List.intercalate_cons_of_ne_nil (by simp), ih, List.flatMap_cons]
    simp

theorem subset_intercalate (sep : List Char) {parts : List (List Char)} {part : List Char} (member : part ∈ parts) :
    part ⊆ sep.intercalate parts := by
  induction parts with
  | nil => contradiction
  | cons first parts ih =>
    by_cases last : parts = []
    · obtain rfl := List.mem_singleton.mp (last ▸ member)
      simp [last]
    · rw [List.intercalate_cons_of_ne_nil last]
      rcases List.mem_cons.mp member with rfl | later
      · exact fun c inside => List.mem_append_left _ (List.mem_append_left _ inside)
      · exact fun c inside => List.mem_append_right _ (ih later inside)

theorem forall_mem_intercalate {p : Char → Prop} {sep : List Char} {parts : List (List Char)}
    (between : ∀ c ∈ sep, p c) (inside : ∀ part ∈ parts, ∀ c ∈ part, p c) : ∀ c ∈ sep.intercalate parts, p c := by
  induction parts with
  | nil => simp
  | cons part parts ih =>
    obtain ⟨here, later⟩ := List.forall_mem_cons.mp inside
    by_cases last : parts = []
    · simpa [last] using here
    · rw [List.intercalate_cons_of_ne_nil last, List.forall_mem_append, List.forall_mem_append]
      exact ⟨⟨here, between⟩, ih later⟩

theorem notMem_intercalate {c : Char} {sep : List Char} {parts : List (List Char)} (outside : c ∉ sep)
    (apart : ∀ part ∈ parts, c ∉ part) : c ∉ sep.intercalate parts := by
  have other : ∀ d ∈ sep.intercalate parts, d ≠ c :=
    forall_mem_intercalate (fun d between same => outside (same ▸ between))
      fun part member d inside same => apart part member (same ▸ inside)
  exact fun member => other c member rfl

theorem bne_of_mem {sep : Char} {cs : List Char} (fresh : sep ∉ cs) : ∀ c ∈ cs, (c != sep) = true := by
  intro c member
  refine bne_iff_ne.mpr ?_
  rintro rfl
  exact fresh member

theorem cutFirst_of_notMem {sep : Char} {cs : List Char} (fresh : sep ∉ cs) : cutFirst sep cs = (cs, none) := by
  rw [cutFirst, List.takeWhile_eq_self_iff.mpr (bne_of_mem fresh), List.dropWhile_eq_nil_iff.mpr (bne_of_mem fresh)]

theorem cutFirst_append {sep : Char} {cs : List Char} (fresh : sep ∉ cs) (rest : List Char) :
    cutFirst sep (cs ++ sep :: rest) = (cs, some rest) := by
  simp [cutFirst, List.takeWhile_append_of_pos (bne_of_mem fresh), List.dropWhile_append_of_pos (bne_of_mem fresh)]

theorem cutLast_append {sep : Char} (before : List Char) {after : List Char} (fresh : sep ∉ after) :
    cutLast sep (before ++ sep :: after) = (some before, after) := by
  have reversed : (before ++ sep :: after).reverse = after.reverse ++ sep :: before.reverse := by simp
  rw [cutLast, reversed, cutFirst_append (by simpa using fresh)]
  simp

theorem cutLast_of_notMem {sep : Char} {cs : List Char} (fresh : sep ∉ cs) : cutLast sep cs = (none, cs) := by
  rw [cutLast, cutFirst_of_notMem (by simpa using fresh)]
  simp

/-- A text lacks a character or can be cut at its last one. -/
theorem cutLast_cases (sep : Char) (cs : List Char) :
    sep ∉ cs ∨ ∃ before after, cs = before ++ sep :: after ∧ sep ∉ after := by
  by_cases member : sep ∈ cs
  · obtain ⟨after, before, split, fresh⟩ := List.eq_append_cons_of_mem (List.mem_reverse.mpr member)
    refine .inr ⟨before.reverse, after.reverse, ?_, by simpa using fresh⟩
    simpa using congrArg List.reverse split
  · exact .inl member

theorem startsWith_iff {start s : String} : startsWith start s = true ↔ start.toList <+: s.toList := by
  rw [startsWith, Option.isSome_iff_exists]
  exact exists_congr fun rest => after?_eq_some_iff.trans eq_comm

theorem takeWhile_append_of_stop {p : Char → Bool} {cs rest : List Char} (inside : ∀ c ∈ cs, p c = true)
    (stops : ∀ c ∈ rest.head?, p c = false) : (cs ++ rest).takeWhile p = cs := by
  rw [List.takeWhile_append_of_pos inside]
  cases rest with
  | nil => exact List.append_nil cs
  | cons c rest => rw [List.takeWhile_cons_of_neg (by simp [stops c rfl]), List.append_nil]

theorem dropWhile_append_of_stop {p : Char → Bool} {cs rest : List Char} (inside : ∀ c ∈ cs, p c = true)
    (stops : ∀ c ∈ rest.head?, p c = false) : (cs ++ rest).dropWhile p = rest := by
  rw [List.dropWhile_append_of_pos inside]
  cases rest with
  | nil => rfl
  | cons c rest => exact List.dropWhile_cons_of_neg (by simp [stops c rfl])

theorem dropEndWhile_isPrefix (p : Char → Bool) (cs : List Char) : dropEndWhile p cs <+: cs :=
  List.rdropWhile_prefix p cs

theorem dropEndWhile_eq_self_iff {p : Char → Bool} {cs : List Char} :
    dropEndWhile p cs = cs ↔ ∀ c ∈ cs.getLast?, p c = false := by
  refine List.rdropWhile_eq_self_iff.trans ?_
  by_cases empty : cs = []
  · simp [empty]
  · simp [List.getLast?_eq_some_getLast empty, empty]

theorem dropEndWhile_eq_nil_iff {p : Char → Bool} {cs : List Char} : dropEndWhile p cs = [] ↔ ∀ c ∈ cs, p c = true :=
  List.rdropWhile_eq_nil_iff

theorem dropEndWhile_append_of_all {p : Char → Bool} (cs : List Char) {rest : List Char}
    (dropped : ∀ c ∈ rest, p c = true) : dropEndWhile p (cs ++ rest) = dropEndWhile p cs := by
  rw [dropEndWhile, List.reverse_append, List.dropWhile_append_of_pos (by simpa using dropped), dropEndWhile]

theorem dropEndWhile_append_of_exists {p : Char → Bool} (cs : List Char) {rest : List Char}
    (kept : ∃ c ∈ rest, p c = false) : dropEndWhile p (cs ++ rest) = cs ++ dropEndWhile p rest := by
  have left : rest.reverse.dropWhile p ≠ [] := by simpa [List.dropWhile_eq_nil_iff] using kept
  rw [dropEndWhile, List.reverse_append, List.dropWhile_append]
  simp [left, dropEndWhile]

theorem dropEndWhile_concat {p : Char → Bool} {cs : List Char} {c : Char} (dropped : p c = true)
    (kept : ∀ d ∈ cs.getLast?, p d = false) : dropEndWhile p (cs ++ [c]) = cs := by
  rw [dropEndWhile_append_of_all cs (by simpa using dropped), dropEndWhile_eq_self_iff.mpr kept]

theorem trimWhile_append {p : Char → Bool} {before core after : List Char} (nonempty : core ≠ [])
    (passedBefore : ∀ c ∈ before, p c = true) (passedAfter : ∀ c ∈ after, p c = true)
    (first : ∀ c ∈ core.head?, p c = false) (last : ∀ c ∈ core.getLast?, p c = false) :
    trimWhile p (before ++ (core ++ after)) = core := by
  obtain ⟨c, rest, rfl⟩ := List.exists_cons_of_ne_nil nonempty
  have front : (before ++ (c :: rest ++ after)).dropWhile p = c :: rest ++ after :=
    dropWhile_append_of_stop passedBefore (by simpa using first)
  rw [trimWhile, front, dropEndWhile_append_of_all _ passedAfter, dropEndWhile_eq_self_iff.mpr last]

theorem trimWhile_eq_self {p : Char → Bool} {core : List Char} (first : ∀ c ∈ core.head?, p c = false)
    (last : ∀ c ∈ core.getLast?, p c = false) : trimWhile p core = core := by
  by_cases empty : core = []
  · subst empty
    rfl
  · have bare : ∀ c ∈ ([] : List Char), p c = true := by simp
    simpa using trimWhile_append empty bare bare first last

theorem trimChars_blank {cs : List Char} (blank : ∀ c ∈ cs, isBlank c = true) : trimChars cs = [] := by
  rw [trimChars, trimWhile, List.dropWhile_eq_nil_iff.mpr blank]
  rfl

end ChangeLens.Text
