import ChangeLens.Proofs.Change.Hints
import Mathlib.Data.List.Forall2

/-! What hints do to a list of changes. They fill in the detail of added declarations and leave all else as it is,
and a list that has its hints keeps them. The names of a hint are told here without the map that finds them: the names
of the base stand in the order in which they first appear, and each of them is of the kind of its last declaration. -/
namespace ChangeLens

namespace Stem

def Shared (a b : String) : Prop := ∃ stem ∈ stems a, stem ∈ stems b

theorem related_iff {a b : String} : related a b ↔ Shared a b := by
  simp [related, Shared]

theorem related_comm (a b : String) : related a b = related b a := by
  rw [Bool.eq_iff_iff, related_iff, related_iff]
  exact exists_congr fun _ => and_comm

instance (a b : String) : Decidable (Shared a b) := decidable_of_iff _ related_iff

end Stem

namespace Change

open Declaration

variable {base : List Declaration} {c : Change}

def Resembles (base : List Declaration) (c : Change) (name : String) : Prop :=
  ((surviving? base name).map (·.kind)) = some c.kind ∧ name ≠ c.name ∧ Stem.Shared c.name name

instance (base : List Declaration) (c : Change) : DecidablePred (Resembles base c) :=
  fun _ => inferInstanceAs (Decidable (_ ∧ _ ∧ _))

def resembling (base : List Declaration) (c : Change) : List String :=
  ((base.map (·.name)).eraseDups).filter (Resembles base c ·)

/-- The entry of a name passes the test of the map just if the name resembles the change. -/
theorem fits_iff_resembles {entry : String × Declaration} (stored : entry ∈ (byName base).entries) :
    (entry.2.kind == c.kind && entry.2.name != c.name && Stem.related c.name entry.2.name) =
      decide (Resembles base c entry.1) := by
  have found : surviving? base entry.1 = some entry.2 := mem_byName.mp stored
  have named : entry.2.name = entry.1 := name_of_surviving? found
  rw [Bool.eq_iff_iff]
  simp [Resembles, found, named, Stem.related_iff, and_assoc]

theorem relatedNames_eq (base : List Declaration) (c : Change) :
    relatedNames base c.kind c.name = (resembling base c).take 3 := by
  have named (entry : String × Declaration) (stored : entry ∈ (byName base).entries) : entry.2.name = entry.1 :=
    name_of_surviving? (mem_byName.mp stored)
  have kept : (byName base).entries.filter
        ((fun d => d.kind == c.kind && d.name != c.name && Stem.related c.name d.name) ∘ (·.2)) =
      (byName base).entries.filter ((Resembles base c ·) ∘ (·.1)) :=
    List.filter_congr fun entry stored => fits_iff_resembles stored
  rw [relatedNames, resembling, ← keys_byName, Keyed.values, List.filter_map, List.filter_map, List.map_map, kept]
  exact congrArg (List.take 3) (List.map_congr_left fun entry kept => named entry (List.mem_of_mem_filter kept))

/-- What a change becomes: all but the detail is kept, and the detail as well unless something other than an import is
added that resembles a name of the base. -/
structure Annotated (base : List Declaration) (before after : Change) : Prop where
  kept : after = { before with detail := after.detail }
  elsewhere : ¬(before.action = .added ∧ before.kind ≠ .importing) → after.detail = before.detail
  unlike : resembling base before = [] → after.detail = before.detail
  hint : before.action = .added → before.kind ≠ .importing → resembling base before ≠ [] →
    after.detail = some ("related existing: " ++ Text.joinWith ", " ((resembling base before).take 3))

theorem hint?_of_ne_nil {names : List String} (some : names ≠ []) :
    hint? names = .some ("related existing: " ++ Text.joinWith ", " names) := by
  cases names with
  | nil => contradiction
  | cons => rfl

theorem relatable_iff {kind : Kind} : relatable kind ↔ kind ≠ .importing := by
  simp [relatable]

theorem hinted_eq (base : List Declaration) (c : Change) : hinted base c =
    if c.action = .added ∧ c.kind ≠ .importing then (resembling base c).take 3 else [] := by
  simp only [hinted, relatable_iff, relatedNames_eq]

theorem annotated_withRelated (base : List Declaration) (c : Change) : Annotated base c (withRelated base c) := by
  rw [withRelated_eq]
  refine ⟨rfl, fun other => ?_, fun none => ?_, fun added declares some => ?_⟩
  · rw [hinted_eq, if_neg other]
    rfl
  · rw [hinted_eq, none, List.take_nil, ite_self]
    rfl
  · have names : (resembling base c).take 3 ≠ [] := by simpa using some
    rw [hinted_eq, if_pos ⟨added, declares⟩, hint?_of_ne_nil names]
    rfl

/-- The detail has no part in what a change is hinted at. -/
theorem hinted_withRelated (base : List Declaration) (c : Change) : hinted base (withRelated base c) = hinted base c := by
  rw [withRelated_eq]
  rfl

theorem withRelated_withRelated (base : List Declaration) (c : Change) :
    withRelated base (withRelated base c) = withRelated base c := by
  rw [withRelated_eq base (withRelated base c), hinted_withRelated, withRelated_eq]
  cases hint? (hinted base c) <;> rfl

/-- Hints leave the changes in their places and change nothing but details of added declarations that resemble one of
the base; there they name the first three such names of the base. A second time they change nothing, and names resemble
each other both ways. -/
theorem annotateRelated_details (changes : List Change) (base : List Declaration) :
    let annotated := annotateRelated changes base
    List.Forall₂ (Annotated base) changes annotated ∧
      annotateRelated annotated base = annotated ∧
      ∀ a b, Stem.related a b = Stem.related b a := by
  intro annotated
  refine ⟨?_, ?_, Stem.related_comm⟩
  · exact List.forall₂_map_right_iff.mpr (List.forall₂_same.mpr fun c _ => annotated_withRelated base c)
  · simp only [annotated, annotateRelated, List.map_map, Function.comp_def, withRelated_withRelated]

/-- A name has the place of its first declaration and the kind of its last one. Of four such names three are hinted
at. -/
example :
    let base : List Declaration := [⟨"userId", .binding, "", 1⟩, ⟨"userAge", .function, "", 2⟩,
      ⟨"getUser", .function, "", 3⟩, ⟨"setUser", .function, "", 4⟩, ⟨"userAge", .binding, "", 5⟩,
      ⟨"userId", .function, "", 6⟩, ⟨"putUser", .function, "", 7⟩]
    let added : Change := ⟨"io.py", .function, .added, "newUser", none, none⟩
    resembling base added = ["userId", "getUser", "setUser", "putUser"] ∧
      (withRelated base added).detail = some "related existing: userId, getUser, setUser" := by
  decide +kernel

end Change
end ChangeLens
