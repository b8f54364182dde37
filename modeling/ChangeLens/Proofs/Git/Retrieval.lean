import ChangeLens.Proofs.Git.Collect

/-! What can go wrong while a change is collected. If one of the two comparisons fails there is no change. Beyond that a
file lacks just what cannot be retrieved for it, and the others do not notice; but a name that the system does not take
ends all. Neither the schedule of the pool nor its limit shows in the result. -/
namespace ChangeLens

def FileDiff.entry (f : FileDiff) : Listed := ⟨f.path, f.oldPath, f.status⟩

/-- Every line that says a file was added or deleted has a path. -/
def Listed.Named (listing : String) : Prop :=
  ∀ line ∈ Text.lines (Text.trim listing),
    line.toList.head? = some 'A' ∨ line.toList.head? = some 'D' → '\t' ∈ line.toList

namespace Listed

instance (listing : String) : Decidable (Named listing) :=
  inferInstanceAs (Decidable (∀ line ∈ Text.lines (Text.trim listing),
    line.toList.head? = some 'A' ∨ line.toList.head? = some 'D' → '\t' ∈ line.toList))

theorem exists_fields {line : String} (tabbed : '\t' ∈ line.toList) :
    ∃ first second rest, Text.splitAt '\t' line = first :: second :: rest := by
  obtain ⟨before, after, cut⟩ := List.append_of_mem tabbed
  obtain ⟨first, others, before⟩ := List.exists_cons_of_ne_nil (List.splitOn_ne_nil '\t' before)
  obtain ⟨second, rest, after⟩ := List.exists_cons_of_ne_nil (List.splitOn_ne_nil '\t' after)
  rw [Text.splitAt, cut, List.splitOn_append_cons_self, before, after]
  cases others with
  | nil => exact ⟨_, _, _, rfl⟩
  | cons other others => exact ⟨_, _, _, rfl⟩

theorem exists_ofLine {line : String}
    (named : line.toList.head? = some 'A' ∨ line.toList.head? = some 'D' → '\t' ∈ line.toList) :
    ∃ entry, ofLine line = .ok entry := by
  rw [ofLine]
  split
  case h_3 _ code bare =>
    obtain ⟨first, second, rest, fields⟩ := exists_fields (named (.inl code))
    exact absurd fields (bare first second rest)
  case h_5 _ code bare =>
    obtain ⟨first, second, rest, fields⟩ := exists_fields (named (.inr code))
    exact absurd fields (bare first second rest)
  all_goals exact ⟨_, rfl⟩

theorem exists_ofLines {lines : List String}
    (named : ∀ line ∈ lines, line.toList.head? = some 'A' ∨ line.toList.head? = some 'D' → '\t' ∈ line.toList) :
    ∃ listed, ofLines lines = .ok listed := by
  induction lines with
  | nil => exact ⟨[], rfl⟩
  | cons line lines ih =>
    obtain ⟨named, others⟩ := List.forall_mem_cons.mp named
    obtain ⟨rest, rests⟩ := ih others
    obtain ⟨entry, entries⟩ := exists_ofLine named
    rw [ofLines, rests, entries]
    split
    next => exact ⟨rest, rfl⟩
    next => exact ⟨entry.toList ++ rest, rfl⟩

theorem exists_ofText {listing : String} (named : Named listing) : ∃ listed, ofText listing = .ok listed :=
  exists_ofLines named

end Listed

namespace Git

variable {r r' : Repository} {base : String} {head : Option String} {concurrency count : Int}
  {listing rawDiff : String} {listed : List Listed}

theorem run_cases {command : Command} (accepted : Accepted command) :
    (∃ text, r.git command = .output text ∧ (r.run command).value = .ok text) ∨
      (r.git command).output? = none ∧ ∃ f, (r.run command).value = .error (.failed f) := by
  rw [value_run, if_pos accepted]
  cases r.git command with
  | output text => exact .inl ⟨text, rfl, rfl⟩
  | failure code diagnostics => exact .inr ⟨rfl, _, rfl⟩
  | noGit => exact .inr ⟨rfl, _, rfl⟩

/-- What cannot be named is not compared. -/
theorem collect_of_not_nullFree (unnamed : ¬NullFree (range base head)) :
    (collect r base head concurrency count).value = .error (.badName .holdsNull) := by
  refine collect_of_listing_failed (e := .unstarted .holdsNull) ?_
  rw [value_run, if_neg (mt accepted_listing_iff.mp unnamed)]

section
variable (plain : NullFree (range base head))
include plain

/-- Git fails for a collection exactly if it fails for one of the two comparisons. -/
theorem exists_failure_iff :
    (∃ f, (collect r base head concurrency count).value = .error (.git f)) ↔
      (r.git (listingCommand base head)).output? = none ∨ (r.git (diffCommand base head)).output? = none := by
  rcases run_cases (r := r) (accepted_listing_iff.mpr plain) with ⟨listing, answered, lists⟩ | ⟨silent, f, fails⟩
  · rcases run_cases (r := r) (accepted_diff_iff.mpr plain) with ⟨rawDiff, compared, diffs⟩ | ⟨silent, f, fails⟩
    · refine iff_of_false ?_ (by simp [answered, compared, Reply.output?])
      rintro ⟨f, failed⟩
      rw [collect_of_output lists diffs] at failed
      split at failed
      next => simp at failed
      next => split at failed <;> simp at failed
    · exact iff_of_true ⟨f, collect_of_diff_failed lists fails⟩ (.inr silent)
  · exact iff_of_true ⟨f, collect_of_listing_failed fails⟩ (.inl silent)

/-- How the pool ends does not depend on how its lanes take turns. -/
theorem outcome_work {limit : Nat} (positive : 1 ≤ limit) (schedule : List Nat)
    (complete : Pool.Complete (Pool.execute listed (work r base head count rawDiff) schedule
      (Pool.start limit listed.length))) :
    Pool.outcome (Pool.execute listed (work r base head count rawDiff) schedule (Pool.start limit listed.length)) =
      if ∃ l ∈ listed, Refuses count l then .error .holdsNull
      else .ok (listed.map fun l => some (fileOf r base head count (Patch.byPath rawDiff) l)) := by
  have invariant : Pool.Invariant listed (work r base head count rawDiff) limit _ :=
    Pool.execute_invariant schedule (Pool.start_invariant limit)
  split
  next refused =>
    obtain ⟨l, member, refuses⟩ := refused
    obtain ⟨fault, raised⟩ :=
      invariant.exists_error_of_mem complete positive member ((work_eq plain ..).trans (if_pos refuses))
    -- There is one kind of fault, so it does not matter which call is the one that is told of.
    cases fault
    exact raised
  next fine =>
    exact invariant.outcome_of_ok complete positive fun l member =>
      (work_eq plain ..).trans (if_neg fun refuses => fine ⟨l, member, refuses⟩)

/-- All that a collection gives once git has answered both comparisons. -/
theorem value_collect (positive : 1 ≤ concurrency) (answered : r.git (listingCommand base head) = .output listing)
    (compared : r.git (diffCommand base head) = .output rawDiff) (reads : Listed.ofText listing = .ok listed) :
    (collect r base head concurrency count).value =
      if ∃ l ∈ listed, Refuses count l then .error (.badName .holdsNull)
      else .ok ⟨listed.map (fileOf r base head count (Patch.byPath rawDiff)), rawDiff, base, head⟩ := by
  have lists := value_run_eq_ok_iff.mpr ⟨accepted_listing_iff.mpr plain, answered⟩
  have diffs := value_run_eq_ok_iff.mpr ⟨accepted_diff_iff.mpr plain, compared⟩
  obtain ⟨schedule, complete, ran⟩ :=
    Pool.exists_schedule_of_run positive (work r base head count rawDiff) listed
  rw [collect_of_output lists diffs, reads]
  dsimp only
  rw [ran, Pool.report, outcome_work plain (by omega) schedule complete]
  by_cases refused : ∃ l ∈ listed, Refuses count l
  · rw [if_pos refused, if_pos refused]
  · rw [if_neg refused, if_neg refused]
    simp [List.filterMap_map]

end

/-- Commands whose answers are lost, and files of the working tree that cannot be read any more. -/
structure Loss where
  command : Command → Bool
  file : (path : String) → Bool

namespace Loss

variable (loss : Loss)

def newSide (head : Option String) (path : String) : Bool :=
  match head with
  | some ref => loss.command (showCommand ref path)
  | none => loss.file path

def leaves (base : String) (head : Option String) (count : Int) (f : FileDiff) : FileDiff :=
  let before := before f.path f.oldPath
  { f with
    oldContent := if loss.command (showCommand base before) then none else f.oldContent
    newContent := if loss.newSide head f.path then none else f.newContent
    history := if loss.command (logCommand before base count) then [] else f.history }

end Loss

/-- The second repository answers as the first one, but for what is lost. -/
structure Loses (loss : Loss) (r r' : Repository) : Prop where
  fails : ∀ command, loss.command command = true → (r'.git command).output? = none
  answers : ∀ command, loss.command command = false → r'.git command = r.git command
  gone : ∀ path, loss.file path = true → r'.workingFile path = none
  reads : ∀ path, loss.file path = false → r'.workingFile path = r.workingFile path

namespace Loses

variable {loss : Loss} (loses : Loses loss r r')
include loses

theorem output? (command : Command) :
    (r'.git command).output? = if loss.command command then none else (r.git command).output? := by
  split
  next lost => exact loses.fails command lost
  next kept => rw [loses.answers command (Bool.eq_false_iff.mpr kept)]

theorem contentOf (head : Option String) (path : String) :
    contentOf r' head path = if loss.newSide head path then none else contentOf r head path := by
  cases head with
  | some ref => exact loses.output? (showCommand ref path)
  | none =>
    change r'.workingFile path = if loss.file path then none else r.workingFile path
    split
    next gone => exact loses.gone path gone
    next kept => exact loses.reads path (Bool.eq_false_iff.mpr kept)

theorem fileOf (patches : Keyed Patch.FilePatch) (l : Listed) :
    fileOf r' base head count patches l = loss.leaves base head count (fileOf r base head count patches l) := by
  simp only [Git.fileOf, Loss.leaves, loses.output?, loses.contentOf]
  congr 1
  case e_oldContent => by_cases added : l.status = .added <;> simp [added]
  case e_newContent => by_cases deleted : l.status = .deleted <;> simp [deleted]
  case e_history => by_cases lost : loss.command (logCommand (before l.path l.oldPath) base count) <;> simp [lost]

end Loses

def Loss.of (loss : Loss) (r : Repository) : Repository where
  git command := if loss.command command then .failure 128 "" else r.git command
  workingFile path := if loss.file path then none else r.workingFile path

theorem Loss.loses (loss : Loss) (r : Repository) : Loses loss r (loss.of r) where
  fails _ lost := congrArg Reply.output? (if_pos lost)
  answers _ kept := if_neg (Bool.eq_false_iff.mp kept)
  gone _ lost := if_pos lost
  reads _ kept := if_neg (Bool.eq_false_iff.mp kept)

/-- What a collection gives once git has answered both comparisons, for the files that were listed. -/
structure Settles (r : Repository) (base : String) (head : Option String) (concurrency count : Int) (rawDiff : String)
    (listed : List Listed) : Prop where
  refused : (∃ l ∈ listed, Refuses count l) →
    (collect r base head concurrency count).value = .error (.badName .holdsNull)
  collected : (∀ l ∈ listed, ¬Refuses count l) → (collect r base head concurrency count).value =
    .ok ⟨listed.map (fileOf r base head count (Patch.byPath rawDiff)), rawDiff, base, head⟩
  entries : ∀ set, (collect r base head concurrency count).value = .ok set → set.files.map FileDiff.entry = listed
  /-- However the lanes of the pool take turns, they come to that. -/
  scheduled : ∀ schedule,
    let s := Pool.execute listed (work r base head count rawDiff) schedule
      (Pool.start concurrency.toNat listed.length)
    Pool.Complete s → Pool.outcome s =
      if ∃ l ∈ listed, Refuses count l then .error .holdsNull
      else .ok (listed.map fun l => some (fileOf r base head count (Patch.byPath rawDiff) l))
  unlimited : ∀ other : Int, 1 ≤ other →
    (collect r base head other count).value = (collect r base head concurrency count).value
  /-- What else is lost is missing where it was to be, and nothing else changes. -/
  contained : ∀ (loss : Loss) (r' : Repository), Loses loss r r' → loss.command (listingCommand base head) = false →
    loss.command (diffCommand base head) = false → (collect r' base head concurrency count).value =
      (collect r base head concurrency count).value.map fun set =>
        { set with files := set.files.map (loss.leaves base head count) }

theorem settles_of_output (plain : NullFree (range base head)) (positive : 1 ≤ concurrency)
    (answered : r.git (listingCommand base head) = .output listing)
    (compared : r.git (diffCommand base head) = .output rawDiff) (reads : Listed.ofText listing = .ok listed) :
    Settles r base head concurrency count rawDiff listed := by
  have value (r : Repository) (answered : r.git (listingCommand base head) = .output listing)
      (compared : r.git (diffCommand base head) = .output rawDiff) (limit : Int) (positive : 1 ≤ limit) :
      (collect r base head limit count).value =
        if ∃ l ∈ listed, Refuses count l then .error (.badName .holdsNull)
        else .ok ⟨listed.map (fileOf r base head count (Patch.byPath rawDiff)), rawDiff, base, head⟩ :=
    value_collect plain positive answered compared reads
  have collected := value r answered compared concurrency positive
  refine ⟨fun refused => collected.trans (if_pos refused), fun fine => collected.trans (if_neg ?_), fun set given => ?_,
    fun schedule complete => outcome_work plain (by omega) schedule complete,
    fun other positive => (value r answered compared other positive).trans collected.symm,
    fun loss r' loses listingKept diffKept => ?_⟩
  · rintro ⟨l, member, refuses⟩
    exact fine l member refuses
  · rw [collected] at given
    split at given
    next => exact nomatch given
    next =>
      obtain rfl := Except.ok.inj given
      rw [List.map_map]
      exact List.map_id listed
  · have rest := value r' ((loses.answers _ listingKept).trans answered) ((loses.answers _ diffKept).trans compared)
      concurrency positive
    rw [rest, collected]
    by_cases refused : ∃ l ∈ listed, Refuses count l
    · rw [if_pos refused, if_pos refused]
      rfl
    · rw [if_neg refused, if_neg refused]
      simp [Except.map, loses.fileOf]

def movedListing : String := "R090\ta.py\tb.py\nA\tc.py\nD\td.py\n"

def movedGit : Command → Reply
  | ["show", object] => .output ("# " ++ object ++ "\n")
  | "diff" :: "--name-status" :: _ => .output movedListing
  | "diff" :: _ => .output ""
  | _ => .output "f0|first|today\n"

def movedRepository : Repository := ⟨movedGit, fun path => some ("# " ++ path ++ "\n")⟩

/-- The old version of the renamed file, the history of the deleted one and the working copy of the added one. -/
def movedLoss : Loss where
  command c := c = ["show", "main:a.py"] ∨ c.getLast? = some "d.py"
  file path := path = "c.py"

def movedFiles : List FileDiff := [
  { path := "b.py", status := .renamed, hunks := some "", oldPath := some "a.py", oldContent := none,
    newContent := some "# b.py\n", additions := 0, deletions := 0, history := [⟨"f0", "first", "today"⟩] },
  { path := "c.py", status := .added, hunks := some "", oldContent := none, newContent := none, additions := 0,
    deletions := 0, history := [⟨"f0", "first", "today"⟩] },
  { path := "d.py", status := .deleted, hunks := some "", oldContent := some "# main:d.py\n", newContent := none,
    additions := 0, deletions := 0, history := [] }]

def nullGit : Command → Reply
  | "diff" :: "--name-status" :: _ => .output "A\ta\x00b\n"
  | _ => .output ""

/-- Git answers every command, and every file of the working tree that can be asked for can be read. -/
def nullRepository : Repository := ⟨nullGit, fun _ => some ""⟩

end Git
end ChangeLens
