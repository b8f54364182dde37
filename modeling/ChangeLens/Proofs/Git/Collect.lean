import ChangeLens.Proofs.Git.Names
import ChangeLens.Proofs.Pool.Interleaving

/-! What a collected change is made of: its files come from the listing, each with the hunks and the versions that git
gives for it. -/
namespace ChangeLens.Git

def Reply.output? : Reply → Option String
  | output text => some text
  | _ => none

variable {r : Repository} {base : String} {head : Option String} {concurrency count : Int} {set : ChangeSet}
  {listing rawDiff : String}

theorem value_run (r : Repository) (command : Command) :
    (r.run command).value =
      if Accepted command then ((r.git command).result command).mapError .failed
      else .error (.unstarted .holdsNull) := by
  have found : command.any holdsNull = true ↔ ¬Accepted command := by simp [Accepted]
  by_cases accepted : Accepted command
  · rw [Repository.run, if_neg (fun refused => found.mp refused accepted), if_pos accepted]
  · rw [Repository.run, if_pos (found.mpr accepted), if_neg accepted]

theorem value_run_eq_ok_iff {command : Command} {text : String} :
    (r.run command).value = .ok text ↔ Accepted command ∧ r.git command = .output text := by
  rw [value_run]
  split
  next accepted => cases r.git command <;> simp [Reply.result, Except.mapError, accepted]
  next refused => simp [refused]

theorem value_orMissing_run (r : Repository) (command : Command) :
    (orMissing (r.run command)).run.value =
      if Accepted command then .ok (r.git command).output? else .error .holdsNull := by
  change RunError.tolerated (r.run command).value = _
  rw [value_run]
  split
  next => cases r.git command <;> rfl
  next => rfl

/-- What git shows of a path at the head, or what the working tree holds there. -/
def contentOf (r : Repository) (head : Option String) (path : String) : Option String :=
  match head with
  | some ref => (r.git (showCommand ref path)).output?
  | none => r.workingFile path

/-- Something of the file is to be asked for under a name that the system does not take. -/
def Refuses (count : Int) (l : Listed) : Prop :=
  (l.status ≠ .added ∧ ¬NullFree (before l.path l.oldPath)) ∨ (l.status ≠ .deleted ∧ ¬NullFree l.path) ∨
    (0 < count ∧ ¬NullFree (before l.path l.oldPath))

instance (count : Int) (l : Listed) : Decidable (Refuses count l) :=
  inferInstanceAs (Decidable ((l.status ≠ .added ∧ ¬NullFree (before l.path l.oldPath)) ∨
    (l.status ≠ .deleted ∧ ¬NullFree l.path) ∨ (0 < count ∧ ¬NullFree (before l.path l.oldPath))))

theorem not_refuses_of_nullFree {l : Listed} (free : l.NullFree) : ¬Refuses count l := by
  have old : NullFree (before l.path l.oldPath) := by
    rw [before]
    cases kept : l.oldPath.filter (!·.isEmpty) with
    | none => exact free.1
    | some old => exact free.2 old (Option.filter_eq_some_iff.mp kept).1
  simp [Refuses, free.1, old]

/-- A listed file with all that is found of it. What cannot be retrieved is left out. -/
def fileOf (r : Repository) (base : String) (head : Option String) (count : Int)
    (patches : Keyed Patch.FilePatch) (l : Listed) : FileDiff :=
  let patch := (patches.find? l.path).getD ⟨"", 0, 0⟩
  let before := before l.path l.oldPath
  { path := l.path
    status := l.status
    hunks := some patch.hunks
    oldPath := l.oldPath
    oldContent := if l.status = .added then none else (r.git (showCommand base before)).output?
    newContent := if l.status = .deleted then none else contentOf r head l.path
    additions := patch.additions
    deletions := patch.deletions
    history :=
      if 0 < count then ((r.git (logCommand before base count)).output?.map HistoryEntry.ofText).getD [] else [] }

def work (r : Repository) (base : String) (head : Option String) (count : Int) (rawDiff : String) (l : Listed) :
    Except BadName FileDiff :=
  (collectFile r base head count (Patch.byPath rawDiff) l).run.value

section
variable (plain : NullFree (range base head))
include plain

theorem value_oldSide (r : Repository) (status : Status) (path : String) :
    (oldSide r base status path).run.value =
      if status ≠ .added ∧ ¬NullFree path then .error .holdsNull
      else .ok (if status = .added then none else (r.git (showCommand base path)).output?) := by
  by_cases added : status = .added
  · simp [oldSide, added]
  · have taken : Accepted (showCommand base path) ↔ NullFree path := by
      simp [accepted_show_iff, (nullFree_range_iff.mp plain).1]
    rw [oldSide, if_neg added, if_neg added, Repository.contentAt, ← showCommand, value_orMissing_run]
    by_cases free : NullFree path <;> simp [taken, free, added]

theorem value_newSide (r : Repository) (status : Status) (path : String) :
    (newSide r head status path).run.value =
      if status ≠ .deleted ∧ ¬NullFree path then .error .holdsNull
      else .ok (if status = .deleted then none else contentOf r head path) := by
  by_cases deleted : status = .deleted
  · simp [newSide, deleted]
  · rw [newSide, if_neg deleted, if_neg deleted]
    cases head with
    | some ref =>
      have taken : Accepted (showCommand ref path) ↔ NullFree path := by
        simp [accepted_show_iff, (nullFree_range_iff.mp plain).2 ref rfl]
      rw [Repository.content, Repository.contentAt, ← showCommand, value_orMissing_run]
      by_cases free : NullFree path <;> simp [taken, free, deleted, contentOf]
    | none =>
      change r.workingContent path = _
      by_cases free : NullFree path <;> simp [Repository.workingContent, free, deleted, contentOf]

theorem value_history (r : Repository) (count : Int) (path : String) :
    (history r path base count).run.value =
      if 0 < count ∧ ¬NullFree path then .error .holdsNull
      else .ok (if 0 < count then ((r.git (logCommand path base count)).output?.map HistoryEntry.ofText).getD []
        else []) := by
  rw [history]
  split
  next positive =>
    have taken : Accepted (logCommand path base count) ↔ NullFree path := by
      simp [accepted_log_iff positive, (nullFree_range_iff.mp plain).1]
    rw [Asked.value_bind, Repository.log, ← logCommand, value_orMissing_run]
    by_cases free : NullFree path
    · simp [taken, free, Except.bind]
    · simp [taken, free, positive, Except.bind]
  next none => simp [none]

theorem value_collectFile (r : Repository) (patches : Keyed Patch.FilePatch) (l : Listed) :
    (collectFile r base head count patches l).run.value =
      if Refuses count l then .error .holdsNull else .ok (fileOf r base head count patches l) := by
  have old := value_oldSide plain r l.status (before l.path l.oldPath)
  have new := value_newSide plain r l.status l.path
  have past := value_history plain r count (before l.path l.oldPath)
  simp only [collectFile, Asked.value_bind, Asked.value_pure, old, new, past]
  -- The first refusal ends it, and one is as good as another.
  by_cases noOld : l.status ≠ .added ∧ ¬NullFree (before l.path l.oldPath)
  · have refuses : Refuses count l := .inl noOld
    rw [if_pos noOld, if_pos refuses]
    rfl
  rw [if_neg noOld]
  by_cases noNew : l.status ≠ .deleted ∧ ¬NullFree l.path
  · have refuses : Refuses count l := .inr (.inl noNew)
    rw [if_pos noNew, if_pos refuses]
    rfl
  rw [if_neg noNew]
  by_cases noPast : 0 < count ∧ ¬NullFree (before l.path l.oldPath)
  · have refuses : Refuses count l := .inr (.inr noPast)
    rw [if_pos noPast, if_pos refuses]
    rfl
  · have fine : ¬Refuses count l := fun refuses => refuses.elim noOld fun rest => rest.elim noNew noPast
    rw [if_neg noPast, if_neg fine]
    rfl

theorem work_eq (r : Repository) (count : Int) (rawDiff : String) (l : Listed) :
    work r base head count rawDiff l =
      if Refuses count l then .error .holdsNull else .ok (fileOf r base head count (Patch.byPath rawDiff) l) :=
  value_collectFile plain r _ l

end

theorem collect_of_listing_failed {e : RunError} (fails : (r.run (listingCommand base head)).value = .error e) :
    (collect r base head concurrency count).value = .error (.ofRun e) := by
  rw [collect, Traced.value_bind, ← listingCommand, fails]
  rfl

theorem collect_of_diff_failed {e : RunError} (lists : (r.run (listingCommand base head)).value = .ok listing)
    (fails : (r.run (diffCommand base head)).value = .error e) :
    (collect r base head concurrency count).value = .error (.ofRun e) := by
  rw [collect, Traced.value_bind, ← listingCommand, lists, Traced.value_bind, ← diffCommand, fails]
  rfl

theorem collect_of_output (lists : (r.run (listingCommand base head)).value = .ok listing)
    (diffs : (r.run (diffCommand base head)).value = .ok rawDiff) :
    (collect r base head concurrency count).value =
      match Listed.ofText listing with
      | .error line => .error (.missingPath line)
      | .ok listed =>
        match (Pool.run concurrency (work r base head count rawDiff) listed).result with
        | .error (.limit given) => .error (.limit given)
        | .error (.worker fault) => .error (.badName fault)
        | .ok files => .ok ⟨files, rawDiff, base, head⟩ := by
  rw [collect, Traced.value_bind, ← listingCommand, lists, Traced.value_bind, ← diffCommand, diffs]
  cases Listed.ofText listing <;> rfl

/-- A change that was collected comes from what git answers to its two comparisons. -/
theorem collect_cases (collected : (collect r base head concurrency count).value = .ok set) :
    ∃ listing rawDiff listed, r.git (listingCommand base head) = .output listing ∧
      r.git (diffCommand base head) = .output rawDiff ∧ Listed.ofText listing = .ok listed ∧
      set.rawDiff = rawDiff ∧ ∀ f ∈ set.files, ∃ l ∈ listed, f = fileOf r base head count (Patch.byPath rawDiff) l := by
  cases lists : (r.run (listingCommand base head)).value with
  | error e =>
    rw [collect_of_listing_failed lists] at collected
    exact nomatch collected
  | ok listing =>
    cases diffs : (r.run (diffCommand base head)).value with
    | error e =>
      rw [collect_of_diff_failed lists diffs] at collected
      exact nomatch collected
    | ok rawDiff =>
      rw [collect_of_output lists diffs] at collected
      obtain ⟨accepted, answered⟩ := value_run_eq_ok_iff.mp lists
      have plain : NullFree (range base head) := accepted_listing_iff.mp accepted
      split at collected
      next => exact nomatch collected
      next listed reads =>
        split at collected
        next => exact nomatch collected
        next => exact nomatch collected
        next files worked =>
          obtain rfl := Except.ok.inj collected
          refine ⟨listing, rawDiff, listed, answered, (value_run_eq_ok_iff.mp diffs).2, reads, rfl, fun f member => ?_⟩
          obtain ⟨l, entry, made⟩ := Pool.exists_of_mem_run worked member
          rw [work_eq plain] at made
          split at made
          next => exact nomatch made
          next => exact ⟨l, entry, (Except.ok.inj made).symm⟩

/-- The hunks of a file are those that the patch gives for its path, or none. -/
theorem hunks_of_mem_files (collected : (collect r base head concurrency count).value = .ok set) {f : FileDiff}
    (member : f ∈ set.files) : f.hunks = some (((Patch.byPath set.rawDiff).find? f.path).getD ⟨"", 0, 0⟩).hunks := by
  obtain ⟨listing, rawDiff, listed, -, -, -, rfl, files⟩ := collect_cases collected
  obtain ⟨l, -, rfl⟩ := files f member
  rfl

theorem rawDiff_of_output {rawDiff : String} (collected : (collect r base head concurrency count).value = .ok set)
    (answers : r.git (diffCommand base head) = .output rawDiff) : set.rawDiff = rawDiff := by
  obtain ⟨listing, diff, listed, -, diffs, -, rfl, -⟩ := collect_cases collected
  exact Reply.output.inj (diffs.symm.trans answers)

end ChangeLens.Git
