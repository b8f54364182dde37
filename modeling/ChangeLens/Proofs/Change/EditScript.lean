import ChangeLens.Change.Basic
import ChangeLens.Proofs.Keyed
import Mathlib.Logic.Function.Basic

/-! The changes between two versions of a file as an edit script. A version gives each name the text of its
last declaration. The script names what differs, each name once, and carrying it out on the old texts gives
the new ones. -/
namespace ChangeLens

namespace Declaration

/-- The declaration that counts for a name, which is the last one. -/
def surviving? (ds : List Declaration) (name : String) : Option Declaration :=
  ds.reverse.find? (·.name == name)

def textOf (ds : List Declaration) (name : String) : Option String := (surviving? ds name).map (·.rawText)

def place (ds : List Declaration) (name : String) : Nat := (ds.map (·.name)).idxOf name

theorem name_of_surviving? {ds : List Declaration} {name : String} {d : Declaration}
    (found : surviving? ds name = some d) : d.name = name := by
  simpa using List.find?_some found

theorem find?_byName (ds : List Declaration) (name : String) :
    (byName ds).find? name = surviving? ds name := by
  rw [byName, Keyed.find?_ofList, surviving?, ← List.map_reverse]
  induction ds.reverse with
  | nil => rfl
  | cons d ds ih =>
    rw [List.map_cons, List.lookup_cons, List.find?_cons, ih]
    by_cases same : name = d.name
    · simp [same]
    · simp [beq_false_of_ne same, beq_false_of_ne (Ne.symm same)]

theorem nodup_keys_byName (ds : List Declaration) : (byName ds).keys.Nodup := Keyed.nodup_keys_ofList _

theorem mem_byName {ds : List Declaration} {name : String} {d : Declaration} :
    (name, d) ∈ (byName ds).entries ↔ surviving? ds name = some d := by
  rw [Keyed.mem_entries_iff (nodup_keys_byName ds), find?_byName]

theorem keys_byName (ds : List Declaration) : (byName ds).entries.map (·.1) = (ds.map (·.name)).eraseDups := by
  rw [← Keyed.keys, byName, Keyed.keys_ofList, List.map_map]
  rfl

theorem pairwise_byName (ds : List Declaration) :
    (byName ds).entries.Pairwise (fun a b => place ds a.1 < place ds b.1) := by
  have ordered := pairwise_idxOf_eraseDups (ds.map (·.name))
  rw [← keys_byName, List.pairwise_map] at ordered
  exact ordered

end Declaration

open Declaration

/-- How a name may differ between two versions, and the change that tells it. -/
inductive Difference (path : String) (old new : List Declaration) : Change → Prop where
  | removed (d : Declaration) : surviving? old d.name = some d → surviving? new d.name = none →
      Difference path old new ⟨path, d.kind, .removed, d.name, some d.startLine, none⟩
  | added (d : Declaration) : surviving? old d.name = none → surviving? new d.name = some d →
      Difference path old new ⟨path, d.kind, .added, d.name, some d.startLine, none⟩
  | modified (before d : Declaration) : surviving? old d.name = some before →
      surviving? new d.name = some d → before.rawText ≠ d.rawText →
      Difference path old new ⟨path, d.kind, .modified, d.name, some d.startLine, none⟩

namespace Change

def gone (path : String) (old new : List Declaration) : List Change :=
  ((byName old).entries.filter fun (name, _) => !(byName new).contains name).map
    fun (_, d) => of path .removed d

def arrived (path : String) (old new : List Declaration) : List Change :=
  (byName new).entries.filterMap fun (name, d) => arriving? path (byName old) name d

theorem between_eq {status : Status} (whole : status ≠ .added ∧ status ≠ .deleted) (path : String)
    (old new : List Declaration) : between path status old new = gone path old new ++ arrived path old new := by
  cases status with
  | added => exact absurd rfl whole.1
  | deleted => exact absurd rfl whole.2
  | modified => rfl
  | renamed => rfl
  | unknown word => rfl

theorem mem_gone {path : String} {old new : List Declaration} {c : Change} : c ∈ gone path old new ↔
    ∃ d, surviving? old d.name = some d ∧ surviving? new d.name = none ∧ c = of path .removed d := by
  simp only [gone, List.mem_map, List.mem_filter, Prod.exists, mem_byName, Keyed.contains, find?_byName]
  constructor
  · rintro ⟨name, d, ⟨found, absent⟩, rfl⟩
    obtain rfl := name_of_surviving? found
    exact ⟨d, found, by simpa using absent, rfl⟩
  · rintro ⟨d, found, absent, rfl⟩
    exact ⟨d.name, d, ⟨found, by simp [absent]⟩, rfl⟩

theorem mem_arrived {path : String} {old new : List Declaration} {c : Change} : c ∈ arrived path old new ↔
    ∃ d, surviving? new d.name = some d ∧
      (surviving? old d.name = none ∧ c = of path .added d ∨
        ∃ before, surviving? old d.name = some before ∧ before.rawText ≠ d.rawText ∧
          c = of path .modified d) := by
  simp only [arrived, List.mem_filterMap, Prod.exists, mem_byName, arriving?, find?_byName]
  constructor
  · rintro ⟨name, d, found, tells⟩
    obtain rfl := name_of_surviving? found
    refine ⟨d, found, ?_⟩
    cases old : surviving? old d.name with
    | none =>
      rw [old] at tells
      exact .inl ⟨rfl, (Option.some.inj tells).symm⟩
    | some before =>
      simp only [old] at tells
      split at tells
      next => contradiction
      next different => exact .inr ⟨before, rfl, different, (Option.some.inj tells).symm⟩
  · rintro ⟨d, found, ⟨absent, rfl⟩ | ⟨before, known, different, rfl⟩⟩
    · exact ⟨d.name, d, found, by simp [absent]⟩
    · exact ⟨d.name, d, found, by simp [known, different]⟩

theorem mem_between_iff {path : String} {old new : List Declaration} {c : Change} :
    c ∈ gone path old new ++ arrived path old new ↔ Difference path old new c := by
  rw [List.mem_append, mem_gone, mem_arrived]
  constructor
  · rintro (⟨d, found, absent, rfl⟩ | ⟨d, found, ⟨absent, rfl⟩ | ⟨before, known, different, rfl⟩⟩)
    · exact .removed d found absent
    · exact .added d absent found
    · exact .modified before d known found different
  · rintro (⟨d, found, absent⟩ | ⟨d, absent, found⟩ | ⟨before, d, known, found, different⟩)
    · exact .inl ⟨d, found, absent, rfl⟩
    · exact .inr ⟨d, found, .inl ⟨absent, rfl⟩⟩
    · exact .inr ⟨d, found, .inr ⟨before, known, different, rfl⟩⟩

theorem pairwise_gone (path : String) (old new : List Declaration) :
    (gone path old new).Pairwise (fun a b => place old a.name < place old b.name) := by
  refine List.pairwise_map.mpr (((pairwise_byName old).filter _).imp_of_mem fun {a b} ha hb less => ?_)
  have named (e : String × Declaration) (member : e ∈ (byName old).entries) : e.2.name = e.1 :=
    name_of_surviving? (mem_byName.mp member)
  simpa [of, named a (List.mem_of_mem_filter ha), named b (List.mem_of_mem_filter hb)] using less

theorem name_of_arriving? {path : String} {old : Keyed Declaration} {name : String} {d : Declaration}
    {c : Change} (tells : arriving? path old name d = some c) : c.name = d.name := by
  unfold arriving? at tells
  split at tells
  next => rw [← Option.some.inj tells]; rfl
  next =>
    split at tells
    next => contradiction
    next => rw [← Option.some.inj tells]; rfl

theorem pairwise_arrived (path : String) (old new : List Declaration) :
    (arrived path old new).Pairwise (fun a b => place new a.name < place new b.name) := by
  refine List.pairwise_filterMap.mpr ((pairwise_byName new).imp_of_mem fun {a b} ha hb less c tc e te => ?_)
  have named (e : String × Declaration) (member : e ∈ (byName new).entries) : e.2.name = e.1 :=
    name_of_surviving? (mem_byName.mp member)
  rwa [name_of_arriving? tc, name_of_arriving? te, named a ha, named b hb]

theorem nodup_names {ds : List Declaration} {cs : List Change}
    (ordered : cs.Pairwise (fun a b => place ds a.name < place ds b.name)) : (cs.map (·.name)).Nodup :=
  List.pairwise_map.mpr (ordered.imp fun less same => by simp [same] at less)

theorem gone_disjoint_arrived (path : String) (old new : List Declaration) :
    ((gone path old new).map (·.name)).Disjoint ((arrived path old new).map (·.name)) := by
  intro name one two
  obtain ⟨c, here, rfl⟩ := List.mem_map.mp one
  obtain ⟨e, there, same⟩ := List.mem_map.mp two
  obtain ⟨d, -, absent, rfl⟩ := mem_gone.mp here
  obtain ⟨now, found, ⟨-, rfl⟩ | ⟨before, -, -, rfl⟩⟩ := mem_arrived.mp there
  -- What is gone has no new declaration, what arrives has one.
  all_goals
    change now.name = d.name at same
    rw [← same, found] at absent
    contradiction

end Change

/-- A list of changes that tells all differences between two versions: each name once, first what is gone in
the old order, then the rest in the new order. -/
structure EditScript (path : String) (old new : List Declaration) (changes : List Change) : Prop where
  distinct : (changes.map (·.name)).Nodup
  differences : ∀ c, c ∈ changes ↔ Difference path old new c
  ordered : ∃ gone arrived, changes = gone ++ arrived ∧
    (∀ c ∈ gone, c.action = .removed) ∧ (∀ c ∈ arrived, c.action ≠ .removed) ∧
    gone.Pairwise (fun a b => place old a.name < place old b.name) ∧
    arrived.Pairwise (fun a b => place new a.name < place new b.name)

namespace Change

theorem between_editScript {status : Status} (whole : status ≠ .added ∧ status ≠ .deleted) (path : String)
    (old new : List Declaration) : EditScript path old new (between path status old new) := by
  rw [between_eq whole]
  refine ⟨?_, fun _ => mem_between_iff, gone path old new, arrived path old new, rfl, ?_, ?_,
    pairwise_gone path old new, pairwise_arrived path old new⟩
  · rw [List.map_append]
    exact List.nodup_append.mpr ⟨nodup_names (pairwise_gone ..), nodup_names (pairwise_arrived ..),
      fun name one other two same => gone_disjoint_arrived path old new one (same ▸ two)⟩
  · intro c member
    obtain ⟨d, -, -, rfl⟩ := mem_gone.mp member
    rfl
  · intro c member
    obtain ⟨d, -, ⟨-, rfl⟩ | ⟨before, -, -, rfl⟩⟩ := mem_arrived.mp member <;> simp [of]

def Reports (changes : List Change) (action : Action) (name : String) : Prop :=
  ∃ c ∈ changes, c.action = action ∧ c.name = name

def carryOut (new : List Declaration) (texts : String → Option String) (c : Change) : String → Option String :=
  Function.update texts c.name
    (if c.action = .removed then none else (surviving? new c.name).map (·.rawText))

end Change

namespace EditScript

variable {path : String} {old new : List Declaration} {changes : List Change}

theorem reports_removed (script : EditScript path old new changes) (name : String) :
    Change.Reports changes .removed name ↔ (surviving? old name).isSome ∧ surviving? new name = none := by
  constructor
  · rintro ⟨c, member, action, rfl⟩
    cases (script.differences c).mp member with
    | removed d found absent => exact ⟨by rw [found]; rfl, absent⟩
    | added | modified => contradiction
  · rintro ⟨known, absent⟩
    obtain ⟨d, found⟩ := Option.isSome_iff_exists.mp known
    obtain rfl := name_of_surviving? found
    exact ⟨_, (script.differences _).mpr (.removed d found absent), rfl, rfl⟩

theorem reports_added (script : EditScript path old new changes) (name : String) :
    Change.Reports changes .added name ↔ surviving? old name = none ∧ (surviving? new name).isSome := by
  constructor
  · rintro ⟨c, member, action, rfl⟩
    cases (script.differences c).mp member with
    | added d absent found => exact ⟨absent, by rw [found]; rfl⟩
    | removed | modified => contradiction
  · rintro ⟨absent, known⟩
    obtain ⟨d, found⟩ := Option.isSome_iff_exists.mp known
    obtain rfl := name_of_surviving? found
    exact ⟨_, (script.differences _).mpr (.added d absent found), rfl, rfl⟩

theorem reports_modified (script : EditScript path old new changes) (name : String) :
    Change.Reports changes .modified name ↔ ∃ before now, surviving? old name = some before ∧
      surviving? new name = some now ∧ before.rawText ≠ now.rawText := by
  constructor
  · rintro ⟨c, member, action, rfl⟩
    cases (script.differences c).mp member with
    | modified before d known found different => exact ⟨before, d, known, found, different⟩
    | removed | added => contradiction
  · rintro ⟨before, d, known, found, different⟩
    obtain rfl := name_of_surviving? found
    exact ⟨_, (script.differences _).mpr (.modified before d known found different), rfl, rfl⟩

/-- A name is touched only if the versions differ on it, so no shorter script would do. -/
theorem mem_names_iff (script : EditScript path old new changes) (name : String) :
    name ∈ changes.map (·.name) ↔ textOf old name ≠ textOf new name := by
  constructor
  · intro member
    obtain ⟨c, here, rfl⟩ := List.mem_map.mp member
    cases (script.differences c).mp here with
    | removed d found absent => simp [textOf, found, absent]
    | added d absent found => simp [textOf, found, absent]
    | modified before d known found different => simp [textOf, known, found, different]
  · intro different
    have named {action : Action} (reported : Change.Reports changes action name) : name ∈ changes.map (·.name) := by
      obtain ⟨c, member, -, rfl⟩ := reported
      exact List.mem_map.mpr ⟨c, member, rfl⟩
    cases before : surviving? old name with
    | none =>
      cases now : surviving? new name with
      | none => simp [textOf, before, now] at different
      | some d => exact named ((script.reports_added name).mpr ⟨before, by rw [now]; rfl⟩)
    | some b =>
      cases now : surviving? new name with
      | none => exact named ((script.reports_removed name).mpr ⟨by rw [before]; rfl, now⟩)
      | some d =>
        refine named ((script.reports_modified name).mpr ⟨b, d, before, now, ?_⟩)
        simpa [textOf, before, now] using different

/-- Each change sets its name to the text of the new version, which is none where the name is gone. -/
theorem carryOut_eq (script : EditScript path old new changes) {c : Change} (member : c ∈ changes)
    (texts : String → Option String) :
    Change.carryOut new texts c = Function.update texts c.name (textOf new c.name) := by
  cases (script.differences c).mp member with
  | removed d found absent => simp [Change.carryOut, textOf, absent]
  | added | modified => simp [Change.carryOut, textOf]

theorem foldl_carryOut_eq (target : String → Option String) {cs : List Change}
    (step : ∀ c ∈ cs, ∀ texts, Change.carryOut new texts c = Function.update texts c.name (target c.name))
    (texts : String → Option String) (name : String) :
    cs.foldl (Change.carryOut new) texts name =
      if name ∈ cs.map (·.name) then target name else texts name := by
  induction cs generalizing texts with
  | nil => simp
  | cons c cs ih =>
    rw [List.foldl_cons, ih (fun e member => step e (.tail _ member)), step c (.head _)]
    by_cases later : name ∈ cs.map (·.name)
    · simp [later]
    · by_cases same : name = c.name <;> simp [later, same]

theorem foldl_carryOut (script : EditScript path old new changes) :
    changes.foldl (Change.carryOut new) (textOf old) = textOf new := by
  funext name
  rw [foldl_carryOut_eq (textOf new) fun c member texts => script.carryOut_eq member texts]
  split
  next => rfl
  next untouched => exact of_not_not (mt (script.mem_names_iff name).mpr untouched)

theorem eq_nil_iff (script : EditScript path old new changes) : changes = [] ↔ textOf old = textOf new := by
  constructor
  · rintro rfl
    exact script.foldl_carryOut
  · intro same
    rw [← List.map_eq_nil_iff (f := (·.name)), List.eq_nil_iff_forall_not_mem]
    intro name member
    exact (script.mem_names_iff name).mp member (congrFun same name)

end EditScript

/-- In a file that is there in both versions, the changes are the smallest edit script: they touch just the
names whose texts differ, tell of each what happened to it, and lead from the old texts to the new ones. -/
theorem Change.between_least_script {status : Status} (whole : status ≠ .added ∧ status ≠ .deleted)
    (path : String) (old new : List Declaration) :
    let changes := between path status old new
    EditScript path old new changes ∧
      (∀ name, Reports changes .removed name ↔ (surviving? old name).isSome ∧ surviving? new name = none) ∧
      (∀ name, Reports changes .added name ↔ surviving? old name = none ∧ (surviving? new name).isSome) ∧
      (∀ name, Reports changes .modified name ↔ ∃ before now, surviving? old name = some before ∧
        surviving? new name = some now ∧ before.rawText ≠ now.rawText) ∧
      (∀ name, name ∈ changes.map (·.name) ↔ textOf old name ≠ textOf new name) ∧
      changes.foldl (carryOut new) (textOf old) = textOf new ∧
      (changes = [] ↔ textOf old = textOf new) := by
  intro changes
  have script := between_editScript whole path old new
  exact ⟨script, script.reports_removed, script.reports_added, script.reports_modified, script.mem_names_iff,
    script.foldl_carryOut, script.eq_nil_iff⟩

/-- Of two declarations with one name the last counts, on both sides: `b` is as before, and `a` is gone with the
line of its second declaration. -/
theorem Change.between_least_script_repeated :
    let old : List Declaration := [⟨"a", .function, "1", 1⟩, ⟨"b", .function, "2", 2⟩, ⟨"a", .binding, "3", 3⟩]
    let new : List Declaration := [⟨"b", .function, "0", 1⟩, ⟨"c", .binding, "4", 2⟩, ⟨"b", .classLike, "2", 3⟩]
    (Status.renamed ≠ .added ∧ Status.renamed ≠ .deleted) ∧
      between "f.py" .renamed old new =
        [⟨"f.py", .binding, .removed, "a", some 3, none⟩, ⟨"f.py", .binding, .added, "c", some 2, none⟩] ∧
      EditScript "f.py" old new (between "f.py" .renamed old new) ∧
      (between "f.py" .renamed old new).foldl (carryOut new) (textOf old) = textOf new := by
  intro old new
  have whole : Status.renamed ≠ .added ∧ Status.renamed ≠ .deleted := by decide
  obtain ⟨script, -, -, -, -, leads, -⟩ := between_least_script whole "f.py" old new
  exact ⟨whole, by decide, script, leads⟩

end ChangeLens
