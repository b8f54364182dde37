import ChangeLens.Keyed
import Mathlib.Data.List.Induction
import Mathlib.Data.List.Basic

/-! What a map keeps of the pairs that were put into it: a key has the place of its first pair and the value of
its last one. Both come from following the pairs one by one. -/
namespace ChangeLens

theorem eraseDups_concat [DecidableEq α] (xs : List α) (a : α) :
    (xs ++ [a]).eraseDups = if a ∈ xs then xs.eraseDups else xs.eraseDups ++ [a] := by
  rw [List.eraseDups_append]
  by_cases known : a ∈ xs <;> simp [List.removeAll, known, List.eraseDups_cons]

/-- What is found first does not depend on repetitions. -/
theorem find?_eraseDups [DecidableEq α] (p : α → Bool) (xs : List α) : xs.eraseDups.find? p = xs.find? p := by
  induction xs using List.reverseRecOn with
  | nil => rfl
  | append_singleton xs a ih =>
    rw [eraseDups_concat, List.find?_append]
    split
    next known =>
      rw [ih]
      by_cases fits : p a = true
      · have found : (xs.find? p).isSome := List.find?_isSome.mpr ⟨a, known, fits⟩
        rw [Option.or_of_isSome found]
      · simp [fits]
    next => rw [List.find?_append, ih]

/-- Without its repetitions a list keeps the order in which its elements first occur. -/
theorem pairwise_idxOf_eraseDups [DecidableEq α] (xs : List α) :
    xs.eraseDups.Pairwise (fun a b => xs.idxOf a < xs.idxOf b) := by
  induction xs using List.reverseRecOn with
  | nil => exact .nil
  | append_singleton xs x ih =>
    have same {a : α} (member : a ∈ xs.eraseDups) : (xs ++ [x]).idxOf a = xs.idxOf a := by
      rw [List.idxOf_append, if_pos (List.mem_eraseDups.mp member)]
    have earlier : xs.eraseDups.Pairwise (fun a b => (xs ++ [x]).idxOf a < (xs ++ [x]).idxOf b) :=
      ih.imp_of_mem fun ha hb less => by rwa [same ha, same hb]
    rw [eraseDups_concat]
    split
    next => exact earlier
    next fresh =>
      refine List.pairwise_append.mpr ⟨earlier, List.pairwise_singleton .., fun a ha b hb => ?_⟩
      rw [List.mem_singleton.mp hb, same ha, List.idxOf_append, if_neg fresh]
      have := List.idxOf_lt_length_of_mem (List.mem_eraseDups.mp ha)
      omega

theorem nodup_eraseDups [DecidableEq α] (xs : List α) : xs.eraseDups.Nodup :=
  (pairwise_idxOf_eraseDups xs).imp fun less same => by simp [same] at less

theorem length_eraseDups_le [DecidableEq α] (xs : List α) : xs.eraseDups.length ≤ xs.length := by
  induction xs using List.reverseRecOn with
  | nil => exact Nat.le_refl _
  | append_singleton xs a ih =>
    rw [eraseDups_concat, List.length_append]
    split
    next => exact Nat.le_trans ih (Nat.le_add_right ..)
    next => simpa using ih

/-- No element is lost with the repetitions just if there are none. -/
theorem length_eraseDups_eq_iff [DecidableEq α] {xs : List α} : xs.eraseDups.length = xs.length ↔ xs.Nodup := by
  induction xs using List.reverseRecOn with
  | nil => simp
  | append_singleton xs a ih =>
    have le := length_eraseDups_le xs
    rw [eraseDups_concat, List.length_append, List.length_singleton, List.nodup_append, ← ih]
    split
    next known =>
      refine iff_of_false (by omega) fun distinct => ?_
      exact distinct.2.2 a known a (List.mem_singleton_self a) rfl
    next fresh =>
      have other : ∀ b ∈ xs, ∀ c ∈ [a], b ≠ c := by
        rintro b member c here rfl
        exact fresh (List.mem_singleton.mp here ▸ member)
      simpa using fun _ => by simpa using other

namespace Keyed

variable {α : Type}

theorem ofList_concat (pairs : List (String × α)) (key : String) (value : α) :
    ofList (pairs ++ [(key, value)]) = (ofList pairs).put key value := by
  simp [ofList]

/-- The last value put under a key counts. -/
theorem find?_ofList (pairs : List (String × α)) (key : String) :
    (ofList pairs).find? key = pairs.reverse.lookup key := by
  induction pairs using List.reverseRecOn with
  | nil => rfl
  | append_singleton pairs pair ih =>
    obtain ⟨k, v⟩ := pair
    rw [ofList_concat, find?_put, ih, List.reverse_append, List.reverse_singleton,
      List.singleton_append, List.lookup_cons]
    by_cases same : key = k
    · simp [same]
    · simp [same, beq_false_of_ne same]

theorem find?_ofList_eq_none_iff {pairs : List (String × α)} {key : String} :
    (ofList pairs).find? key = none ↔ key ∉ pairs.map (·.1) := by
  rw [find?_ofList, List.lookup_eq_none_iff]
  simp only [List.mem_reverse, List.mem_map, not_exists, not_and, bne_iff_ne, ne_eq]
  exact forall₂_congr fun _ _ => not_congr eq_comm

theorem find?_ofList_of_last {before after : List (String × α)} {key : String} (last : key ∉ after.map (·.1))
    (value : α) : (ofList (before ++ (key, value) :: after)).find? key = some value := by
  have behind : after.reverse.lookup key = none := by
    rwa [← find?_ofList, find?_ofList_eq_none_iff]
  simp [find?_ofList, List.lookup_append, behind]

/-- A key has the place at which it was first put. -/
theorem keys_ofList (pairs : List (String × α)) :
    (ofList pairs).keys = (pairs.map (·.1)).eraseDups := by
  induction pairs using List.reverseRecOn with
  | nil => rfl
  | append_singleton pairs pair ih =>
    obtain ⟨k, v⟩ := pair
    rw [ofList_concat, keys_put, ih, List.map_append, List.map_singleton, eraseDups_concat]
    simp only [List.mem_eraseDups]

theorem nodup_keys_ofList (pairs : List (String × α)) : (ofList pairs).keys.Nodup :=
  keys_ofList pairs ▸ nodup_eraseDups _

theorem entries_put_of_notMem {m : Keyed α} {key : String} (fresh : key ∉ m.keys) (value : α) :
    (m.put key value).entries = m.entries ++ [(key, value)] := by
  obtain ⟨entries⟩ := m
  simp only [keys, put] at fresh ⊢
  induction entries with
  | nil => rfl
  | cons entry rest ih =>
    obtain ⟨k, v⟩ := entry
    simp only [List.map_cons, List.mem_cons, not_or] at fresh
    rw [putIn, if_neg (Ne.symm fresh.1), ih fresh.2, List.cons_append]

/-- Pairs with distinct keys are kept as they are. -/
theorem entries_ofList {pairs : List (String × α)} (distinct : (pairs.map (·.1)).Nodup) :
    (ofList pairs).entries = pairs := by
  induction pairs using List.reverseRecOn with
  | nil => rfl
  | append_singleton pairs pair ih =>
    obtain ⟨k, v⟩ := pair
    rw [List.map_append, List.nodup_append] at distinct
    have fresh : k ∉ (ofList pairs).keys := by
      rw [keys, ih distinct.1]
      exact fun member => distinct.2.2 k member k (by simp) rfl
    rw [ofList_concat, entries_put_of_notMem fresh, ih distinct.1]

/-- With distinct keys the entries are what asking for the keys gives. -/
theorem mem_entries_iff {m : Keyed α} (distinct : m.keys.Nodup) {key : String} {value : α} :
    (key, value) ∈ m.entries ↔ m.find? key = some value := by
  obtain ⟨entries⟩ := m
  simp only [keys, find?] at distinct ⊢
  induction entries with
  | nil => simp
  | cons entry rest ih =>
    obtain ⟨k, v⟩ := entry
    simp only [List.map_cons, List.nodup_cons] at distinct
    rw [List.mem_cons, List.lookup_cons]
    by_cases same : key = k
    · subst same
      have absent : (key, value) ∉ rest := fun member =>
        distinct.1 (List.mem_map.mpr ⟨(key, value), member, rfl⟩)
      simp [absent, eq_comm]
    · simp [same, beq_false_of_ne same, ih distinct.2]

/-- With distinct keys a map is told by its keys and by what asking for them gives. -/
theorem entries_eq_of_getD {m : Keyed α} (distinct : m.keys.Nodup) (otherwise : α) :
    m.entries = m.keys.map fun key => (key, (m.find? key).getD otherwise) := by
  have value : ∀ entry ∈ m.entries, id entry = (entry.1, (m.find? entry.1).getD otherwise) := by
    intro entry member
    rw [(mem_entries_iff distinct).mp member, Option.getD_some, id]
  rw [keys, List.map_map]
  exact (List.map_id _).symm.trans (List.map_congr_left value)

theorem group_concat (pairs : List (String × α)) (key : String) (value : α) :
    group (pairs ++ [(key, value)]) =
      (group pairs).put key (((group pairs).find? key).getD [] ++ [value]) := by
  simp [group]

theorem keys_group (pairs : List (String × α)) : (group pairs).keys = (pairs.map (·.1)).eraseDups := by
  induction pairs using List.reverseRecOn with
  | nil => rfl
  | append_singleton pairs pair ih =>
    obtain ⟨k, v⟩ := pair
    rw [group_concat, keys_put, ih, List.map_append, List.map_singleton, eraseDups_concat]
    simp only [List.mem_eraseDups]

theorem getD_find?_group (pairs : List (String × α)) (key : String) :
    ((group pairs).find? key).getD [] = (pairs.filter (·.1 == key)).map (·.2) := by
  induction pairs using List.reverseRecOn with
  | nil => rfl
  | append_singleton pairs pair ih =>
    obtain ⟨k, v⟩ := pair
    rw [group_concat, find?_put, List.filter_append, List.map_append, ← ih]
    by_cases same : key = k
    · simp [same]
    · simp [same, Ne.symm same]

/-- Each key stands where it first appeared, with its values in their order. -/
theorem entries_group (pairs : List (String × α)) : (group pairs).entries =
    (pairs.map (·.1)).eraseDups.map fun key => (key, (pairs.filter (·.1 == key)).map (·.2)) := by
  have distinct : (group pairs).keys.Nodup := keys_group pairs ▸ nodup_eraseDups _
  rw [entries_eq_of_getD distinct [], keys_group]
  simp only [getD_find?_group]

end Keyed
end ChangeLens
