import ChangeLens.Calendar
import ChangeLens.CommandLine.Arguments
import ChangeLens.CommandLine.Console
import ChangeLens.Toml.Printer
import Std.Time.DateTime

/-! The program on the command line. It gathers the surroundings, runs, and carries out what the run leaves
behind. No grammar is linked in, and git is known by replies that were recorded in a directory beforehand. -/
namespace ChangeLens.Main

/-- The files below an entry of a directory, by their paths; what belongs to git itself is passed over. -/
partial def filesBelow (above : String) (e : IO.FS.DirEntry) : IO (List (String × List UInt8)) := do
  let path := above ++ e.fileName
  if ← e.path.isDir then
    if e.fileName == ".git" then return []
    let entries ← e.path.readDir
    return (← entries.toList.mapM (filesBelow (path ++ "/"))).flatten
  else
    try return [(path, (← IO.FS.readBinFile e.path).toList)]
    catch _ => return []

def workTree : IO WorkTree := do
  let entries ← (← IO.currentDir).readDir
  return ⟨⟨(← entries.toList.mapM (filesBelow "")).flatten⟩⟩

def storeAt (path : String) : IO Config.Store := do
  try return .text (← IO.FS.readFile path)
  catch _ => return .absent

/-- The name under which the reply to a command is kept. Slashes are written by number, so that a name is never a
path. -/
def replyName (c : Git.Command) : String :=
  .ofList (c.line.toList.flatMap fun ch =>
    if ch = '/' then ['%', '2', 'F'] else if ch = '%' then ['%', '2', '5'] else [ch])

/-- Answers from recorded replies. A command without one fails. -/
def reply (recorded : List (String × String)) (c : Git.Command) : Git.Reply :=
  match recorded.lookup (replyName c) with
  | some text => .output text
  | none => .failure 128 ("fatal: " ++ c.line)

def recordedGit : IO (Git.Command → Git.Reply) := do
  match ← IO.getEnv "DIFFINTEL_GIT_REPLIES" with
  | none => return fun _ => .noGit
  | some directory =>
    let entries ← (← IO.FS.realPath directory).readDir
    let replies ← entries.toList.mapM fun e => return (e.fileName, ← IO.FS.readFile e.path)
    return reply replies

def settingVariables : IO (List (String × String)) := do
  let names := Config.Key.all.filterMap (·.envName?)
  return (← names.mapM fun n => return (← IO.getEnv n).map (n, ·)).filterMap id

def configHome : IO String := do
  match ← IO.getEnv "DIFFINTEL_HOME" with
  | some home => return home
  | none => return ((← IO.getEnv "HOME").getD ".") ++ "/.diffintel"

def surroundings (home : String) : IO (Command.Surroundings Toml.Fault) := do
  let configPath := home ++ "/config.toml"
  let env ← settingVariables
  let seconds := (← Std.Time.Timestamp.now).toSecondsSinceUnixEpoch.val.toNat
  return {
    git := ← recordedGit
    tree := ← workTree
    root := toString (← IO.currentDir)
    format := Toml.format
    medium := {}
    store := ← storeAt configPath
    configPath := configPath
    env := (env.lookup ·)
    tools := ⟨.standard, .holding [], fun _ _ => .failed⟩
    now := Timestamp.text seconds }

/-- Writes the files that a run has written, and the configuration if it has changed. -/
def carryOut (home : String) (w : Command.Surroundings Toml.Fault) (t : Command.Trace) : IO Unit := do
  for (path, content) in t.tree.files.entries do
    if w.tree.files.find? path != some content then
      IO.FS.writeBinFile path content.toByteArray
  if t.store ≠ w.store then
    if let .text document := t.store then
      IO.FS.createDirAll home
      IO.FS.writeFile w.configPath document

/-- Shows what a run prints, consoles by lines and reports as they are, and does what it has come to. -/
def finish (home : String) (w : Command.Surroundings Toml.Fault) (o : Command.Outcome) : IO UInt32 := do
  for item in o.trace.errConsole do
    for line in CommandLine.lines item do IO.eprintln line
  if let .badParameter option := o.exit then
    IO.eprintln (CommandLine.UsageError.badValue option).message
  for text in o.trace.stdout do IO.print (CommandLine.printed text)
  for item in o.trace.console do
    for line in CommandLine.lines item do IO.println line
  carryOut home w o.trace
  return UInt32.ofNat o.exit.code

def run (args : List String) : IO UInt32 := do
  let home ← configHome
  let w ← surroundings home
  match CommandLine.readRequest w.tree args with
  | .ok request => finish home w (Command.run w request)
  | .error e =>
    IO.eprintln e.message
    return UInt32.ofNat CommandLine.UsageError.code

end ChangeLens.Main

def main (args : List String) : IO UInt32 := ChangeLens.Main.run args
