import ChangeLens.Text.Blank
import ChangeLens.Text.Split

/-! Asking git. Git is a function from the arguments of a command to what running it gives; results carry
the commands that were run for them. -/
namespace ChangeLens.Git

abbrev Command := List String

inductive Reply where
  | output (text : String)
  | failure (code : Int) (diagnostics : String)
  /-- There is no git to run. -/
  | noGit

structure Failure where
  command : Command
  code : Int
  diagnostics : String
  deriving DecidableEq

def Command.line (c : Command) : String := Text.joinWith " " c

def Failure.message (f : Failure) : String :=
  "git " ++ f.command.line ++ " failed with exit code " ++ toString f.code ++
    (if f.diagnostics.isEmpty then "" else ": " ++ f.diagnostics)

def Reply.result (command : Command) : Reply → Except Failure String
  | output text => .ok text
  | failure code diagnostics => .error ⟨command, code, Text.trim diagnostics⟩
  | noGit => .error ⟨command, 127, "git not found"⟩

/-- A value with the commands that were run for it, in order. -/
structure Traced (α : Type) where
  value : α
  commands : List Command := []

instance : Monad Traced where
  pure value := ⟨value, []⟩
  bind x f := ⟨(f x.value).value, x.commands ++ (f x.value).commands⟩

@[simp] theorem Traced.value_pure (a : α) : (pure a : Traced α).value = a := rfl

@[simp] theorem Traced.value_bind (x : Traced α) (f : α → Traced β) : (x >>= f).value = (f x.value).value := rfl

/-- Why a text is no name of a file and no argument of a command. -/
inductive BadName where
  /-- The null character ends names. -/
  | holdsNull
  deriving DecidableEq

def BadName.message : BadName → String
  | holdsNull => "embedded null byte"

def holdsNull (name : String) : Bool := name.toList.contains '\x00'

inductive RunError where
  | failed (failure : Failure)
  | unstarted (fault : BadName)
  deriving DecidableEq

/-- Results for which the system may refuse a name. -/
abbrev Asked (α : Type) := ExceptT BadName Traced α

theorem Asked.value_bind (x : Asked α) (f : α → Asked β) :
    (x >>= f).run.value = x.run.value.bind fun a => (f a).run.value := by
  change (ExceptT.bindCont f x.run.value).value = _
  cases x.run.value <;> rfl

@[simp] theorem Asked.value_pure (a : α) : (pure a : Asked α).run.value = .ok a := rfl

def RunError.tolerated : Except RunError α → Except BadName (Option α)
  | .ok a => .ok (some a)
  | .error (.failed _) => .ok none
  | .error (.unstarted fault) => .error fault

/-- What is missing if git fails, and only then. -/
def orMissing (x : Traced (Except RunError α)) : Asked (Option α) := ExceptT.mk (RunError.tolerated <$> x)

/-- A repository: git, and the files of its working tree as far as they can be read. -/
structure Repository where
  git : Command → Reply
  workingFile : (path : String) → Option String

namespace Repository

/-- The output of a command, or why there is none. No command is run with an argument that is none. -/
def run (r : Repository) (command : Command) : Traced (Except RunError String) :=
  if command.any holdsNull then ⟨.error (.unstarted .holdsNull), []⟩
  else ⟨((r.git command).result command).mapError .failed, [command]⟩

/-- The content of a file as of `ref`; a file that cannot be shown has none. -/
def contentAt (r : Repository) (ref path : String) : Asked (Option String) :=
  orMissing (r.run ["show", ref ++ ":" ++ path])

def workingContent (r : Repository) (path : String) : Except BadName (Option String) :=
  if holdsNull path then .error .holdsNull else .ok (r.workingFile path)

def content (r : Repository) (ref : Option String) (path : String) : Asked (Option String) :=
  match ref with
  | some ref => r.contentAt ref path
  | none => ExceptT.mk (pure (r.workingContent path))

/-- The non-empty paths in a list that ends each with a null character. -/
def nullSeparated (text : String) : List String := (Text.splitAt '\x00' text).filter (!·.isEmpty)

def trackedFiles (r : Repository) : Traced (Except RunError (List String)) := do
  return (← r.run ["ls-files", "-z"]).map nullSeparated

def trackedFilesAt (r : Repository) (ref : String) : Traced (Except RunError (List String)) := do
  return (← r.run ["ls-tree", "-r", "--name-only", "-z", ref]).map nullSeparated

def log (r : Repository) (path ref : String) (count : Int) : Traced (Except RunError String) :=
  r.run ["log", "--format=%h|%s|%cr", "-" ++ toString count, ref, "--", path]

def isRepository (r : Repository) : Traced Bool := do
  match ← r.run ["rev-parse", "--is-inside-work-tree"] with
  | .ok text => return Text.trim text == "true"
  | .error _ => return false

end Repository
end ChangeLens.Git
