/-! Maps in the order in which their keys were first put. A key that is put again keeps its place and takes
the last value. -/
namespace ChangeLens

/-- A map as a list of pairs, in the order of first insertion. -/
structure Keyed (α : Type) where
  entries : List (String × α)

namespace Keyed

def empty : Keyed α := ⟨[]⟩

def find? (m : Keyed α) (key : String) : Option α := m.entries.lookup key

def contains (m : Keyed α) (key : String) : Bool := (m.find? key).isSome

def keys (m : Keyed α) : List String := m.entries.map (·.1)

def values (m : Keyed α) : List α := m.entries.map (·.2)

def putIn (key : String) (value : α) : List (String × α) → List (String × α)
  | [] => [(key, value)]
  | (k, v) :: rest => if k = key then (k, value) :: rest else (k, v) :: putIn key value rest

def put (m : Keyed α) (key : String) (value : α) : Keyed α := ⟨putIn key value m.entries⟩

def ofList (pairs : List (String × α)) : Keyed α := pairs.foldl (fun m (k, v) => m.put k v) empty

/-- Values gathered under their keys, both in the order of their first appearance. -/
def group (pairs : List (String × α)) : Keyed (List α) :=
  pairs.foldl (fun m (k, v) => m.put k ((m.find? k).getD [] ++ [v])) empty

theorem find?_put (m : Keyed α) (key other : String) (value : α) :
    (m.put key value).find? other = if other = key then some value else m.find? other := by
  obtain ⟨entries⟩ := m
  simp only [find?, put]
  induction entries with
  | nil =>
    by_cases h : other = key
    · simp [putIn, h]
    · simp [putIn, List.lookup_cons, beq_false_of_ne h, h]
  | cons e rest ih =>
    obtain ⟨k, v⟩ := e
    by_cases hk : k = key
    · subst hk
      by_cases ho : other = k
      · simp [putIn, ho]
      · simp [putIn, List.lookup_cons, beq_false_of_ne ho, ho]
    · by_cases ho : other = k
      · subst ho; simp [putIn, hk]
      · simp [putIn, hk, List.lookup_cons, beq_false_of_ne ho, ih]

theorem keys_put (m : Keyed α) (key : String) (value : α) :
    (m.put key value).keys = if key ∈ m.keys then m.keys else m.keys ++ [key] := by
  obtain ⟨entries⟩ := m
  simp only [keys, put]
  induction entries with
  | nil => simp [putIn]
  | cons e rest ih =>
    obtain ⟨k, v⟩ := e
    by_cases hk : k = key
    · simp [putIn, hk]
    · have hk' : ¬key = k := fun e => hk e.symm
      simp only [putIn, hk, if_false, List.map_cons, ih, List.mem_cons, hk', false_or]
      split <;> simp_all

end Keyed
end ChangeLens
