import ChangeLens.Analysis
import ChangeLens.Proofs.Session.Memory

/-! Files are analysed in isolation. They share a session, and of all that went on in it before a file is analysed with
what a session has that was just started. A file that cannot be analysed is left with nothing found, not with a part. -/
namespace ChangeLens

namespace Session

variable {α β : Type} {t : Toolchain} {s : Session} {budget : Int}

/-- What the session knows is true of the toolchain. -/
def Sound (t : Toolchain) (s : Session) : Prop := ∃ asked, Remembers t asked s

def after (s : Session) (requests : List Request) : Session := requests.foldl (fun s r => (s.serve r).next) s

theorem sound_start (t : Toolchain) : Sound t (start t) := ⟨[], remembers_start t⟩

theorem Sound.after (sound : Sound t s) (requests : List Request) : Sound t (s.after requests) := by
  induction requests generalizing s with
  | nil => exact sound
  | cons r requests ih =>
    obtain ⟨asked, remembers⟩ := sound
    exact ih ⟨_, (serve_serves remembers r).next⟩

/-- A step that gives what it would give without any memory, and keeps the session sound. -/
structure Step.Gives (x : Step α) (t : Toolchain) (a : α) : Prop where
  result : x.result = a
  next : Sound t x.next

namespace Step

theorem gives_idle (sound : Sound t s) (a : α) : Step.Gives ⟨a, [], s⟩ t a := ⟨rfl, sound⟩

theorem Gives.map {x : Step α} {a : α} (gives : x.Gives t a) (f : α → β) : (x.map f).Gives t (f a) :=
  ⟨congrArg f gives.result, gives.next⟩

theorem Gives.andThen {x : Step α} {a : α} {f : α → Session → Step β} {b : β} (gives : x.Gives t a)
    (goesOn : ∀ s, Sound t s → (f a s).Gives t b) : (x.andThen f).Gives t b := by
  have rest := goesOn x.next gives.next
  rw [← gives.result] at rest
  exact ⟨rest.result, rest.next⟩

end Step

theorem Sound.tools (sound : Sound t s) : s.tools = t := sound.elim fun _ remembers => remembers.tools

theorem parse_gives (sound : Sound t s) (language source : String) :
    (s.parse language source).Gives t (t.parse language source) := by
  obtain ⟨asked, remembers⟩ := sound
  have serves := parse_serves remembers language source
  exact ⟨serves.result, _, serves.next⟩

theorem declarations_gives (sound : Sound t s) (source : Option String) (language : String) :
    (s.declarations source language).Gives t (Extraction.ofSource t source language) := by
  rw [declarations, Extraction.ofSource, sound.tools]
  cases source.filter (!Text.allBlank ·) with
  | none => exact Step.gives_idle sound []
  | some text => exact (parse_gives sound language text).map _

theorem declarationsOf_gives (sound : Sound t s) (v : Extraction.Versions) :
    (s.declarationsOf v).Gives t (Extraction.ofVersions t v) := by
  rw [declarationsOf, Extraction.ofVersions, languageFor?, sound.tools]
  cases (v.language.filter (!·.isEmpty)).or (t.languageFor? v.path) with
  | none => exact Step.gives_idle sound ([], [])
  | some language =>
    refine (declarations_gives sound v.oldText language).andThen fun s sound => ?_
    exact (declarations_gives sound v.newText language).map _

theorem annotate_gives (sound : Sound t s) (source : Option String) (language : String) (changed : List Int) :
    (s.annotate budget source language changed).Gives t (ControlFlow.annotate t budget source language changed) := by
  rw [annotate, ControlFlow.annotate]
  cases source.filter (!Text.allBlank ·) with
  | none => exact Step.gives_idle sound []
  | some text =>
    dsimp only
    split
    next => exact Step.gives_idle sound []
    next => exact (parse_gives sound language text).map _

end Session

namespace FileAnalysis

variable {t : Toolchain} {budget : Int} {f : FileDiff} {id : String}

def sides (t : Toolchain) (f : FileDiff) (id : String) : List Declaration × List Declaration :=
  Extraction.ofVersions t (f.versions (some id))

theorem of_unknown (unknown : languageOf t f = none) : of t budget f = unread f none := by
  simp [of, unknown]

theorem of_deleted (known : languageOf t f = some id) (deleted : f.status = .deleted) :
    of t budget f = found f id (sides t f id) [] := by
  simp [of, known, changedLines?, deleted, found, sides]

theorem of_unreadable (known : languageOf t f = some id) (unreadable : changedLines? f = none) :
    of t budget f = unread f (some id) := by
  simp [of, known, unreadable]

theorem of_readable (known : languageOf t f = some id) (alive : f.status ≠ .deleted) {lines : List Int}
    (readable : changedLines? f = some lines) :
    of t budget f = found f id (sides t f id) (ControlFlow.annotate t budget f.newContent id lines) := by
  simp [of, known, readable, alive, found, sides]

end FileAnalysis

namespace Session

variable {t : Toolchain} {s : Session} {budget : Int}

open FileAnalysis

theorem analyze_gives (sound : Sound t s) (f : FileDiff) : (s.analyze budget f).Gives t (of t budget f) := by
  have language : ((s.languageFor? f.path).result).or
      ((f.oldPath.filter (!·.isEmpty)).bind fun path => (s.languageFor? path).result) = languageOf t f :=
    sound.tools ▸ rfl
  rw [analyze, language]
  cases known : languageOf t f with
  | none =>
    rw [of_unknown known]
    exact Step.gives_idle sound _
  | some id =>
    refine (declarationsOf_gives sound _).andThen fun s sound => ?_
    by_cases deleted : f.status = .deleted
    · rw [if_pos deleted, of_deleted known deleted]
      exact Step.gives_idle sound _
    · rw [if_neg deleted]
      cases lines : changedLines? f with
      | none =>
        rw [of_unreadable known lines]
        exact Step.gives_idle sound _
      | some lines' =>
        rw [of_readable known deleted lines]
        exact (annotate_gives sound f.newContent id lines').map _

theorem analyzeAll_gives (sound : Sound t s) (files : List FileDiff) :
    (s.analyzeAll budget files).Gives t (files.map (of t budget)) := by
  induction files generalizing s with
  | nil => exact Step.gives_idle sound []
  | cons f files ih =>
    refine (analyze_gives sound f).andThen fun s sound => ?_
    exact (ih sound).map _

end Session

namespace FileAnalysis

variable {t : Toolchain} {budget : Int} {f : FileDiff}

/-- The hunks of the file have to be read and cannot be. -/
def Fails (f : FileDiff) : Prop :=
  f.status ≠ .deleted ∧ ∀ hunks, f.hunks = some hunks → ∃ e, Patch.changedLines hunks = .error e

theorem changedLines?_eq_none_iff : changedLines? f = none ↔ Fails f := by
  rw [changedLines?, Fails]
  split
  next deleted => simp [deleted]
  next alive =>
    cases f.hunks with
    | none => simp [alive]
    | some hunks => cases lines : Patch.changedLines hunks <;> simp [alive, lines, Except.toOption]

/-- What an analysis of a file tells: what is known of the file without looking into it, and all that is found in it
or, if it cannot be analysed, nothing. -/
structure Tells (t : Toolchain) (budget : Int) (f : FileDiff) (a : FileAnalysis) : Prop where
  known : a.path = f.path ∧ a.status = f.status ∧ a.rawDiff = f.hunks ∧ a.history = f.history ∧
    a.language = languageOf t f
  nothing : languageOf t f = none ∨ Fails f → a.changes = [] ∧ a.annotations = [] ∧ a.baseNames = []
  declarations : ∀ id, languageOf t f = some id → ¬Fails f →
    let (old, new) := sides t f id
    a.changes = Change.annotateRelated (Change.between f.path f.status old new) old ∧
      a.baseNames = old.map (·.label)
  annotations : ∀ id, languageOf t f = some id → ¬Fails f →
    (f.status = .deleted → a.annotations = []) ∧
      (f.status ≠ .deleted → ∃ hunks lines, f.hunks = some hunks ∧ Patch.changedLines hunks = .ok lines ∧
        a.annotations = ControlFlow.annotate t budget f.newContent id (lines.map Int.ofNat))

theorem tells_unread {id : Option String} (language : languageOf t f = id) (lost : id = none ∨ Fails f) :
    Tells t budget f (unread f id) := by
  subst language
  refine ⟨⟨rfl, rfl, rfl, rfl, rfl⟩, fun _ => ⟨rfl, rfl, rfl⟩, fun id known fine => ?_, fun id known fine => ?_⟩
  all_goals exact absurd lost (by simp [known, fine])

theorem tells_found {id : String} (known : languageOf t f = some id) (fine : ¬Fails f) {notes : List Annotation}
    (deleted : f.status = .deleted → notes = [])
    (alive : f.status ≠ .deleted → ∃ hunks lines, f.hunks = some hunks ∧ Patch.changedLines hunks = .ok lines ∧
      notes = ControlFlow.annotate t budget f.newContent id (lines.map Int.ofNat)) :
    Tells t budget f (found f id (sides t f id) notes) := by
  have only {other : String} (found : languageOf t f = some other) : id = other :=
    Option.some.inj (known.symm.trans found)
  refine ⟨⟨rfl, rfl, rfl, rfl, known.symm⟩, fun lost => absurd lost (by simp [known, fine]), ?_, ?_⟩
  · intro other found _
    obtain rfl := only found
    exact ⟨rfl, rfl⟩
  · intro other found _
    obtain rfl := only found
    exact ⟨deleted, alive⟩

theorem exists_changedLines (alive : f.status ≠ .deleted) (fine : ¬Fails f) :
    ∃ hunks lines, f.hunks = some hunks ∧ Patch.changedLines hunks = .ok lines ∧
      changedLines? f = some (lines.map Int.ofNat) := by
  cases given : f.hunks with
  | none => exact absurd ⟨alive, by simp [given]⟩ fine
  | some hunks =>
    cases read : Patch.changedLines hunks with
    | error e => exact absurd ⟨alive, by simp [given, read]⟩ fine
    | ok lines => exact ⟨hunks, lines, rfl, read, by simp [changedLines?, alive, given, read, Except.toOption]⟩

theorem tells_of (t : Toolchain) (budget : Int) (f : FileDiff) : Tells t budget f (of t budget f) := by
  cases known : languageOf t f with
  | none =>
    rw [of_unknown known]
    exact tells_unread known (.inl rfl)
  | some id =>
    by_cases fails : Fails f
    · rw [of_unreadable known (changedLines?_eq_none_iff.mpr fails)]
      exact tells_unread known (.inr fails)
    · by_cases deleted : f.status = .deleted
      · rw [of_deleted known deleted]
        exact tells_found known fails (fun _ => rfl) fun alive => absurd deleted alive
      · obtain ⟨hunks, lines, given, read, changed⟩ := exists_changedLines deleted fails
        rw [of_readable known deleted changed]
        exact tells_found known fails (fun now => absurd now deleted) fun _ => ⟨hunks, lines, given, read, rfl⟩

end FileAnalysis

namespace Analysis

open Session

def total {α : Type} (count : α → Int) (files : List α) : Int := files.foldr (count · + ·) 0

theorem files_reportIn (session : Session) (settings : Config.Settings) (now : String)
    (repository : Option Git.Repository) (c : ChangeSet) :
    (reportIn session settings now repository c).value.files =
      (session.analyzeAll settings.guardConditionMax c.files).result := rfl

theorem total_one {α : Type} (files : List α) : total (fun _ => 1) files = files.length := by
  induction files with
  | nil => rfl
  | cons f files ih =>
    rw [total, List.foldr_cons, ← total, ih, List.length_cons]
    omega

theorem length_flatMap_changes (files : List FileAnalysis) :
    ((files.flatMap (·.changes)).length : Int) = total (fun a => a.changes.length) files := by
  induction files with
  | nil => rfl
  | cons a files ih => rw [List.flatMap_cons, List.length_append, Int.natCast_add, ih]; rfl

/-- The files of a change are analysed each as on its own, whatever the session was used for before and whatever else
is in the change, and the summary counts them. -/
theorem reportIn_isolates (t : Toolchain) (settings : Config.Settings) (now : String)
    (repository : Option Git.Repository) (c : ChangeSet) (past : List Request) :
    let budget := settings.guardConditionMax
    let alone (f : FileDiff) := ((start t).analyze budget f).result
    let report := (reportIn ((start t).after past) settings now repository c).value
    report.files = c.files.map alone ∧
      (∀ f, FileAnalysis.Tells t budget f (alone f)) ∧
      report.summary = [("filesChanged", total (fun _ => 1) c.files), ("additions", total (·.additions) c.files),
        ("deletions", total (·.deletions) c.files),
        ("structuralChanges", total (fun a => a.changes.length) report.files)] := by
  intro budget alone report
  have fresh (f : FileDiff) : alone f = FileAnalysis.of t budget f := (analyze_gives (sound_start t) f).result
  have files : report.files = c.files.map alone := by
    rw [files_reportIn, (analyzeAll_gives ((sound_start t).after past) c.files).result, funext fresh]
  refine ⟨files, fun f => fresh f ▸ FileAnalysis.tells_of t budget f, ?_⟩
  have length : total (fun _ => 1) c.files = report.files.length := by
    rw [total_one, files, List.length_map]
  rw [length, ← length_flatMap_changes]
  rfl

end Analysis
end ChangeLens
