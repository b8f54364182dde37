import ChangeLens.Proofs.Change.Surviving
import Mathlib.Data.List.Nodup
import Mathlib.Data.List.Perm.Basic

/-! The changes between two versions do not depend on how the versions are held against each other. Read backwards,
what was added is removed and what was modified is modified. Where each version has a name once, a whole file that is
added or deleted is one compared with nothing, and the order of the declarations and their lines do not matter. -/
namespace ChangeLens

open Declaration

variable {path : String} {old new old' new' : List Declaration}

/-- What differs is told by the declarations that count. -/
theorem Difference.congr {c : Change} (olds : surviving? old = surviving? old') (news : surviving? new = surviving? new')
    (differs : Difference path old new c) : Difference path old' new' c := by
  cases differs with
  | removed d found absent => exact .removed d (olds ▸ found) (news ▸ absent)
  | added d absent found => exact .added d (olds ▸ absent) (news ▸ found)
  | modified before d known found different => exact .modified before d (olds ▸ known) (news ▸ found) different

namespace EditScript

variable {changes changes' : List Change}

theorem nodup (script : EditScript path old new changes) : changes.Nodup :=
  List.Nodup.of_map _ script.distinct

/-- Scripts that tell the same differences differ only in their order. -/
theorem perm (script : EditScript path old new changes) (script' : EditScript path old' new' changes')
    (olds : surviving? old = surviving? old') (news : surviving? new = surviving? new') : changes.Perm changes' := by
  refine (List.perm_ext_iff_of_nodup script.nodup script'.nodup).mpr fun c => ?_
  rw [script.differences, script'.differences]
  exact ⟨Difference.congr olds news, Difference.congr olds.symm news.symm⟩

end EditScript

namespace Change

/-- The two lists of changes tell of the same names, each addition in one being a removal in the other. -/
structure Mirrored (changes back : List Change) : Prop where
  added : ∀ name, Reports back .added name ↔ Reports changes .removed name
  removed : ∀ name, Reports back .removed name ↔ Reports changes .added name
  modified : ∀ name, Reports back .modified name ↔ Reports changes .modified name

theorem mirrored_of_scripts {changes back : List Change} (script : EditScript path old new changes)
    (turned : EditScript path new old back) : Mirrored changes back where
  added name := by rw [turned.reports_added, script.reports_removed, and_comm]
  removed name := by rw [turned.reports_removed, script.reports_added, and_comm]
  modified name := by
    rw [turned.reports_modified, script.reports_modified]
    constructor
    · rintro ⟨now, before, found, known, different⟩
      exact ⟨before, now, known, found, different.symm⟩
    · rintro ⟨before, now, known, found, different⟩
      exact ⟨now, before, found, known, different.symm⟩

/-- All declarations of a file that was not there are new. -/
theorem arrived_nil (path : String) (distinct : (new.map (·.name)).Nodup) :
    arrived path [] new = new.map (of path .added) := by
  have unknown (name : String) : (byName []).find? name = none := rfl
  simp only [arrived, arriving?, unknown, entries_byName distinct, List.filterMap_map, Function.comp_def,
    List.filterMap_eq_map']

/-- All declarations of a file that is there no more are gone. -/
theorem gone_nil (path : String) (distinct : (old.map (·.name)).Nodup) :
    gone path old [] = old.map (of path .removed) := by
  have unknown (name : String) : (byName []).contains name = false := rfl
  simp only [gone, unknown, Bool.not_false, entries_byName distinct, List.filter_true, List.map_map, Function.comp_def]

/-- A file that was added is compared with no declarations at all. -/
theorem between_added (path : String) (old : List Declaration) (distinct : (new.map (·.name)).Nodup) :
    between path .added old new = between path .modified [] new := by
  have none : gone path [] new = [] := rfl
  rw [between_eq (by decide) path [] new, none, List.nil_append, arrived_nil path distinct]
  rfl

theorem between_deleted (path : String) (new : List Declaration) (distinct : (old.map (·.name)).Nodup) :
    between path .deleted old new = between path .modified old [] := by
  have none : arrived path old [] = [] := rfl
  rw [between_eq (by decide) path old [], none, List.append_nil, gone_nil path distinct]
  rfl

theorem between_perm (path : String) (status : Status) (once : (old.map (·.name)).Nodup)
    (once' : (new.map (·.name)).Nodup) (olds : old.Perm old') (news : new.Perm new') :
    (between path status old new).Perm (between path status old' new') := by
  by_cases whole : status ≠ .added ∧ status ≠ .deleted
  · exact (between_editScript whole path old new).perm (between_editScript whole path old' new')
      (surviving?_perm olds once) (surviving?_perm news once')
  · rcases not_and_or.mp whole with added | deleted
    · rw [not_not.mp added]
      exact news.map _
    · rw [not_not.mp deleted]
      exact olds.map _

/-- Held against each other the other way round, two versions give the changes in mirror image. If no version has a
name twice, an added (deleted) file gives what the comparison with an empty one gives, the order of the declarations
matters only to the order of the changes, and versions that agree up to order and lines give none. -/
theorem between_mirrored_and_unordered (path : String) (old new : List Declaration) :
    Mirrored (between path .modified old new) (between path .modified new old) ∧
      ((old.map (·.name)).Nodup → (new.map (·.name)).Nodup →
        between path .added old new = between path .modified [] new ∧
        between path .deleted old new = between path .modified old [] ∧
        (∀ status old' new', old.Perm old' → new.Perm new' →
          (between path status old new).Perm (between path status old' new')) ∧
        ((new.map unplaced).Perm (old.map unplaced) → between path .modified old new = [])) := by
  have script := between_editScript (by decide : Status.modified ≠ .added ∧ Status.modified ≠ .deleted) path
  refine ⟨mirrored_of_scripts (script old new) (script new old), fun once once' => ?_⟩
  refine ⟨between_added path old once', between_deleted path new once, ?_, ?_⟩
  · exact fun status old' new' olds news => between_perm path status once once' olds news
  · exact fun moved => (script old new).eq_nil_iff.mpr (textOf_eq_of_perm_unplaced moved.symm once)

/-- The same two declarations, in another order and on other lines, make no change. What is held against them in part
makes the same changes in another order. -/
theorem between_mirrored_and_unordered_moved :
    let old : List Declaration := [⟨"load", .function, "1", 1⟩, ⟨"Store", .classLike, "2", 4⟩]
    let moved : List Declaration := [⟨"Store", .classLike, "2", 1⟩, ⟨"load", .function, "1", 9⟩]
    let new : List Declaration := [⟨"save", .function, "3", 1⟩]
    ((old.map (·.name)).Nodup ∧ (moved.map (·.name)).Nodup ∧ (new.map (·.name)).Nodup) ∧
      between "io.py" .modified old moved = [] ∧
      between "io.py" .added old moved = between "io.py" .modified [] moved ∧
      between "io.py" .deleted old moved = between "io.py" .modified old [] ∧
      (between "io.py" .renamed old new).Perm (between "io.py" .renamed old.reverse new) ∧
      (between "io.py" .renamed old new).map (·.name) = ["load", "Store", "save"] ∧
      (between "io.py" .renamed old.reverse new).map (·.name) = ["Store", "load", "save"] := by
  intro old moved new
  have once : (old.map (·.name)).Nodup := by decide
  have once' : (moved.map (·.name)).Nodup := by decide
  have single : (new.map (·.name)).Nodup := by decide
  obtain ⟨added, deleted, -, unmoved⟩ := (between_mirrored_and_unordered "io.py" old moved).2 once once'
  obtain ⟨-, -, unordered, -⟩ := (between_mirrored_and_unordered "io.py" old new).2 once single
  refine ⟨⟨once, once', single⟩, unmoved (by decide), added, deleted, ?_, by decide, by decide⟩
  exact unordered .renamed old.reverse new (List.reverse_perm old).symm (List.Perm.refl new)

end Change
end ChangeLens
