import ChangeLens.Analysis
import ChangeLens.Config.Store
import ChangeLens.Git.Collect
import ChangeLens.Report.Markdown
import ChangeLens.Report.Members
import ChangeLens.WorkTree

/-! The commands of the program. A run is a function from what is asked for and the surroundings to what is shown and
what is left behind. How commands are written and how what is shown is drawn is left open here. -/
namespace ChangeLens.Command

open Text

def version : String := "0.3.0"

structure ExplainOptions where
  base : String := "origin/main"
  head : String := "HEAD"
  workingTree : Bool := false
  repo : String := "."
  format : String := "markdown"
  output : Option String := none
  noDeps : Bool := false
  /-- How many files may be in hand at once, instead of what the settings say. -/
  concurrency : Option Nat := none

structure DepsOptions where
  files : List String
  ref : String := "HEAD"
  repo : String := "."

inductive Request where
  | version
  | help
  | explain (options : ExplainOptions)
  | declarations (path : String)
  | deps (options : DepsOptions)
  | languages
  | configShow
  | configSet (key value : String)

/-- A part of a line: markup, or a text that is to be seen as it is. -/
inductive Piece where
  | markup (text : String)
  | plain (text : String)

inductive Shown where
  | line (pieces : List Piece)
  | table (title : String) (columns : List String) (rows : List (List String))

structure Surroundings (ε : Type) where
  git : Git.Command → Git.Reply
  /-- The directory in which the program runs. -/
  tree : WorkTree
  /-- The absolute path of that directory. -/
  root : String
  format : Config.Format ε
  medium : Config.Medium
  store : Config.Store
  /-- Where the configuration lies. -/
  configPath : String
  env : String → Option String
  tools : Toolchain
  now : String

structure Trace where
  stdout : List String := []
  console : List Shown := []
  errConsole : List Shown := []
  commands : List Git.Command := []
  store : Config.Store
  tree : WorkTree

inductive Exit where
  | success
  | failure
  /-- An option has a value that it does not take. -/
  | badParameter (option : String)
  /-- A failure that no command reports. -/
  | crash

def Exit.code : Exit → Nat
  | success => 0
  | failure => 1
  | badParameter _ => 2
  | crash => 1

/-- Steps of a run: each may print, run commands of git, or end the run. -/
abbrev Step (α : Type) := Trace → Except Exit α × Trace

instance : Monad Step where
  pure a := fun t => (.ok a, t)
  bind x f := fun t =>
    match x t with
    | (.ok a, t) => f a t
    | (.error e, t) => (.error e, t)

namespace Step

def stop (e : Exit) : Step α := fun t => (.error e, t)

def say (pieces : List Piece) : Step Unit := fun t => (.ok (), { t with console := t.console ++ [.line pieces] })

def tabulate (title : String) (columns : List String) (rows : List (List String)) : Step Unit :=
  fun t => (.ok (), { t with console := t.console ++ [.table title columns rows] })

def warn (pieces : List Piece) : Step Unit :=
  fun t => (.ok (), { t with errConsole := t.errConsole ++ [.line pieces] })

def print (text : String) : Step Unit := fun t => (.ok (), { t with stdout := t.stdout ++ [text] })

def ask (x : Git.Traced α) : Step α := fun t => (.ok x.value, { t with commands := t.commands ++ x.commands })

def currentStore : Step Config.Store := fun t => (.ok t.store, t)

def setStore (s : Config.Store) : Step Unit := fun t => (.ok (), { t with store := s })

def currentTree : Step WorkTree := fun t => (.ok t.tree, t)

def setTree (tree : WorkTree) : Step Unit := fun t => (.ok (), { t with tree := tree })

end Step

open Step

def failed (rest : List Piece) : List Piece := .markup "[red]✗[/red] " :: rest
def succeeded (rest : List Piece) : List Piece := .markup "[green]✓[/green] " :: rest

variable (w : Surroundings ε)

/-- The settings in force. A configuration that cannot be read, or a table of settings that is no table, ends
the run. -/
def loadSettings : Step Config.Settings := do
  match (← currentStore).load w.format w.env with
  | .ok s => pure s
  | .error _ => stop .crash

/-- The repository in a directory, if git takes it for one. The directory need not be there, and in its path
`..` takes back any name before it. -/
def openRepository (path : String) : Step Git.Repository := do
  let directory := Path.normalize path
  let repository : Git.Repository := ⟨w.git, fun file => w.tree.read? (Path.join directory file)⟩
  if ← ask repository.isRepository then pure repository
  else
    warn (failed [.markup ("Not a git repository: " ++ Path.normalize (Path.join w.root path))])
    stop .failure

def emit (report : String) (output : Option String) : Step Unit := do
  match output with
  | none => print (if report.toList.getLast? = some '\n' then report else report ++ "\n")
  | some path =>
    match (← currentTree).write? path report with
    | none => stop .crash
    | some tree =>
      setTree tree
      warn (succeeded [.markup ("Report written to " ++ Path.tidy path)])

inductive Format where
  | markdown
  | json

def Format.ofWord? : String → Option Format
  | "markdown" => some markdown
  | "json" => some json
  | _ => none

def render (f : Format) (r : Report) : Step String :=
  match f with
  | .json => pure (r.toJson.layout 0 ++ "\n")
  | .markdown =>
    match r.markdown Report.maxDiffLength with
    | .ok text => pure text
    | .error _ => stop .crash

def explain (o : ExplainOptions) : Step Unit := do
  let some format := Format.ofWord? o.format | stop (.badParameter "--format")
  let settings ← loadSettings w
  let settings := { settings with concurrency := o.concurrency.getD settings.concurrency }
  let head := if o.workingTree then none else some o.head
  let repository ← openRepository w o.repo
  let shownHead := (head.filter (!·.isEmpty)).getD "working tree"
  warn [.markup ("[bold cyan]Analyzing diff: " ++ o.base ++ "..." ++ shownHead ++ "[/bold cyan]")]
  match ← ask (Git.collect repository o.base head settings.concurrency settings.historyCount) with
  | .error (.git f) =>
    warn (failed [.plain f.message])
    stop .failure
  | .error _ => stop .crash
  | .ok change =>
    if change.files.isEmpty then
      warn [.markup "[yellow]No changes found.[/yellow]"]
      stop .success
    warn [.markup ("Found " ++ toString change.files.length ++ " changed file(s). Analyzing...")]
    let consulted := if o.noDeps then none else some repository
    let report ← ask (Analysis.report w.tools settings w.now consulted change)
    emit (← render format report) o.output

def declarations (path : String) : Step Unit := do
  let file := Path.tidy path
  match w.tools.languageFor? file with
  | none =>
    let suffix := Path.suffix file
    say (failed [.markup ("Unsupported file type: " ++ (if suffix.isEmpty then Path.name file else suffix))])
    stop .failure
  | some language =>
    let some source := w.tree.read? file | stop .crash
    let found := Extraction.ofSource w.tools (some source) language
    let title := file ++ " (" ++ language ++ ")"
    if found.isEmpty then say [.markup ("No declarations found in " ++ title ++ ".")]
    else
      tabulate title ["Line", "Kind", "Name"]
        (found.map fun d => [toString d.startLine, d.kind.word, d.name])

def withSlashes (path : String) : String :=
  .ofList (path.toList.map fun c => if c = '\\' then '/' else c)

def deps (o : DepsOptions) : Step Unit := do
  let repository ← openRepository w o.repo
  let settings ← loadSettings w
  let g ← ask (Analysis.graph w.tools settings repository (o.files.map withSlashes) (some o.ref))
  print (Report.graphSection (some g) ++ "\n")
  say [.markup ("\nBlast radius: [bold]" ++ g.blastRadius.word ++ "[/bold] (" ++ toString g.filesScanned ++
    " files scanned in " ++ toString g.scanMilliseconds ++ " ms)")]

def listedLanguages (t : Toolchain) : List (String × List String × String) :=
  let rows := t.registry.languages.map (fun l => (l.id, l.extensions, l.grammar.package)) ++
    Catalog.untabled.map fun u => (u.id, [u.extension], u.grammar.package)
  (rows.map (·.1)).eraseDups.map fun id =>
    let own := rows.filter (·.1 == id)
    (id, sortDistinct (· ≤ ·) (own.flatMap (·.2.1)), (own.head?.map (·.2.2)).getD "")

def languages : Step Unit :=
  tabulate "Supported languages" ["Language", "Extensions", "Grammar"]
    ((listedLanguages w.tools).map fun (id, extensions, package) =>
      [id, joinWith " " extensions,
        if w.tools.available id then "[green]installed[/green]" else "[red]missing[/red] (" ++ package ++ ")"])

def configShow : Step Unit := do
  let settings ← loadSettings w
  tabulate ("Settings (" ++ w.configPath ++ ")") ["Key", "Value"]
    (Config.Key.all.map fun k => [k.word, toString (settings.get k)])

def configSet (key value : String) : Step Unit := do
  let (result, store) := (← currentStore).update w.format w.medium w.configPath key value
  setStore store
  match result with
  | .ok _ => say (succeeded [.markup (key ++ " = " ++ value)])
  | .error e =>
    match e.report? w.format with
    | some message =>
      say (failed [.plain message])
      stop .failure
    | none => stop .crash

def perform : Request → Step Unit
  | .version => print ("diffintel v" ++ version ++ "\n")
  | .help => stop .success
  | .explain o => explain w o
  | .declarations path => declarations w path
  | .deps o => deps w o
  | .languages => languages w
  | .configShow => configShow w
  | .configSet key value => configSet w key value

structure Outcome where
  exit : Exit
  trace : Trace

def run (request : Request) : Outcome :=
  match perform w request { store := w.store, tree := w.tree } with
  | (.ok (), t) => ⟨.success, t⟩
  | (.error e, t) => ⟨e, t⟩

end ChangeLens.Command
