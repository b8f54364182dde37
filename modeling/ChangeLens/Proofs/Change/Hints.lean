import ChangeLens.Change.Related
import ChangeLens.Proofs.Change.EditScript

/-! What the hints at related declarations tell. They name declarations of the old version, of the same kind and with a
shared stem, but not only those that the new version still has: a name that was removed is hinted at all the same. -/
namespace ChangeLens.Change

open Declaration

variable {path : String} {status : Status} {old new base : List Declaration} {changes : List Change} {c : Change}

def hinted (base : List Declaration) (c : Change) : List String :=
  if c.action = .added ∧ relatable c.kind then relatedNames base c.kind c.name else []

def hint? : List String → Option String
  | [] => none
  | names => some ("related existing: " ++ Text.joinWith ", " names)

theorem withRelated_eq (base : List Declaration) (c : Change) :
    withRelated base c = { c with detail := (hint? (hinted base c)).or c.detail } := by
  rw [withRelated, hinted]
  split
  next => cases relatedNames base c.kind c.name <;> rfl
  next => rfl

theorem surviving_of_hinted {name : String} (member : name ∈ hinted base c) :
    ∃ d, surviving? base name = some d ∧ d.kind = c.kind ∧ name ≠ c.name ∧ Stem.related c.name name := by
  rw [hinted] at member
  split at member
  next =>
    obtain ⟨d, listed, rfl⟩ := List.mem_map.mp (List.mem_of_mem_take member)
    obtain ⟨stored, like⟩ := List.mem_filter.mp listed
    obtain ⟨⟨key, d⟩, entry, rfl⟩ := List.mem_map.mp stored
    have found := mem_byName.mp entry
    simp only [Bool.and_eq_true, beq_iff_eq, bne_iff_ne, ne_eq] at like
    exact ⟨d, name_of_surviving? found ▸ found, like.1.1, like.1.2, like.2⟩
  next => contradiction

theorem mem_annotateRelated : c ∈ annotateRelated changes base ↔ ∃ plain ∈ changes, withRelated base plain = c :=
  List.mem_map

theorem reports_annotateRelated {action : Action} {name : String} :
    Reports (annotateRelated changes base) action name ↔ Reports changes action name := by
  constructor
  · rintro ⟨c, member, did, named⟩
    obtain ⟨plain, there, rfl⟩ := mem_annotateRelated.mp member
    rw [withRelated_eq] at did named
    exact ⟨plain, there, did, named⟩
  · rintro ⟨plain, there, did, named⟩
    exact ⟨_, mem_annotateRelated.mpr ⟨plain, there, rfl⟩, by rw [withRelated_eq, did], by rw [withRelated_eq, named]⟩

/-- What is hinted at by an added change, between two versions whose changes are listed. -/
structure Hints (old new : List Declaration) (changes : List Change) (c : Change) : Prop where
  detail : c.detail = hint? (hinted old c)
  known : ∀ name ∈ hinted old c,
    ∃ d, surviving? old name = some d ∧ d.kind = c.kind ∧ name ≠ c.name ∧ Stem.related c.name name
  survives_iff : ∀ name ∈ hinted old c, (surviving? new name).isSome ↔ ¬Reports changes .removed name
  /-- All names still exist if nothing of the kind was removed whose name resembles the added one. -/
  survive : (∀ gone ∈ changes, gone.action = .removed → gone.kind = c.kind → Stem.related c.name gone.name = false) →
    ∀ name ∈ hinted old c, (surviving? new name).isSome

/-- Each hint names old declarations of the added one's kind that resemble it. Those of them that are gone are the ones
that the changes report as removed. -/
theorem annotate_between_hints (whole : status ≠ .added ∧ status ≠ .deleted) (path : String)
    (old new : List Declaration) :
    let changes := annotateRelated (between path status old new) old
    ∀ c ∈ changes, c.action = .added → Hints old new changes c := by
  intro changes c member added
  have script := between_editScript whole path old new
  have survives_iff (name : String) (listed : name ∈ hinted old c) :
      (surviving? new name).isSome ↔ ¬Reports changes .removed name := by
    obtain ⟨d, found, -⟩ := surviving_of_hinted listed
    rw [reports_annotateRelated, script.reports_removed, found]
    cases surviving? new name <;> simp
  refine ⟨?_, fun name => surviving_of_hinted, survives_iff, fun unlike name listed => ?_⟩
  · obtain ⟨plain, there, rfl⟩ := mem_annotateRelated.mp member
    rw [withRelated_eq] at added ⊢
    change plain.action = .added at added
    have bare : plain.detail = none := by
      cases (script.differences plain).mp there <;> rfl
    change (hint? (hinted old plain)).or plain.detail = hint? (hinted old plain)
    rw [bare, Option.or_none]
  · refine (survives_iff name listed).mpr fun reported => ?_
    obtain ⟨gone, there, removed, rfl⟩ := reported
    obtain ⟨plain, before, rfl⟩ := mem_annotateRelated.mp there
    obtain ⟨d, found, kind, -, related⟩ := surviving_of_hinted listed
    have same : (withRelated old plain).kind = c.kind := by
      rw [withRelated_eq] at removed found ⊢
      cases (script.differences plain).mp before with
      | removed e stored => exact (Option.some.inj (stored.symm.trans found)) ▸ kind
      | added | modified => contradiction
    exact nomatch related.symm.trans (unlike _ there removed same)

def load : Declaration := ⟨"load", .function, "def load(): pass", 1⟩

def loadOne : Declaration := ⟨"loadOne", .function, "def loadOne(): pass", 3⟩

def loadAll : Declaration := ⟨"loadAll", .function, "def loadAll(): pass", 1⟩

def loadAllAdded : Change := ⟨"io.py", .function, .added, "loadAll", some 1, some "related existing: load, loadOne"⟩

theorem annotate_load (status : Status) (whole : status ≠ .added ∧ status ≠ .deleted) :
    annotateRelated (between "io.py" status [load, loadOne] [loadAll, loadOne]) [load, loadOne] =
      [⟨"io.py", .function, .removed, "load", some 1, none⟩, loadAllAdded] := by
  have hint : withRelated [load, loadOne] (of "io.py" .added loadAll) = loadAllAdded := by decide +kernel
  have changes : between "io.py" status [load, loadOne] [loadAll, loadOne] =
      [of "io.py" .removed load, of "io.py" .added loadAll] := by
    rw [between_eq whole]
    rfl
  rw [changes, annotateRelated, List.map_cons, List.map_singleton, hint]
  rfl

theorem annotate_between_hints_load : (Status.renamed ≠ .added ∧ Status.renamed ≠ .deleted) ∧
    let changes := annotateRelated (between "io.py" .renamed [load, loadOne] [loadAll, loadOne]) [load, loadOne]
    loadAllAdded ∈ changes ∧ hinted [load, loadOne] loadAllAdded = ["load", "loadOne"] ∧
      Hints [load, loadOne] [loadAll, loadOne] changes loadAllAdded := by
  have whole : Status.renamed ≠ .added ∧ Status.renamed ≠ .deleted := by decide
  refine ⟨whole, ?_⟩
  intro changes
  have member : loadAllAdded ∈ changes := by
    rw [show changes = _ from annotate_load .renamed whole]
    exact .tail _ (.head _)
  exact ⟨member, by decide +kernel, annotate_between_hints whole "io.py" _ _ loadAllAdded member rfl⟩

/-- The hint names a function that the same changes report as removed. -/
theorem removed_name_hinted :
    annotateRelated (between "io.py" .modified [load, loadOne] [loadAll, loadOne]) [load, loadOne] =
      [⟨"io.py", .function, .removed, "load", some 1, none⟩,
        ⟨"io.py", .function, .added, "loadAll", some 1, some "related existing: load, loadOne"⟩] ∧
    surviving? [loadAll, loadOne] "load" = none :=
  ⟨annotate_load .modified (by decide), rfl⟩

end ChangeLens.Change
