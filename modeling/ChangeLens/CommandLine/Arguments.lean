import ChangeLens.Command.Run

/-! How commands are written: options, which begin with a hyphen, and operands. This is for running the program from a
shell; the commands themselves take what has been read. -/
namespace ChangeLens.CommandLine

open Text

/-- An option by all its spellings. The first of them names it. -/
structure OptionSpec where
  names : List String
  takesValue : Bool

namespace OptionSpec

def flag (names : List String) : OptionSpec := ⟨names, false⟩
def valued (names : List String) : OptionSpec := ⟨names, true⟩

def key (o : OptionSpec) : String := o.names.headD ""

def find? (specs : List OptionSpec) (name : String) : Option OptionSpec := specs.find? (·.names.contains name)

end OptionSpec

inductive UsageError where
  | unknownOption (name : String)
  | missingValue (name : String)
  | unexpectedValue (name : String)
  | wrongOperands
  | badValue (name : String)
  | unknownCommand
  deriving DecidableEq

/-- The options given, the last value of each counting, and the operands. -/
structure Arguments where
  options : Keyed String := .empty
  operands : List String := []

def UsageError.message : UsageError → String
  | unknownOption name => "No such option: " ++ name
  | missingValue name => "Option " ++ name ++ " requires an argument"
  | unexpectedValue name => "Option " ++ name ++ " does not take a value"
  | wrongOperands => "Wrong number of arguments"
  | badValue name => "Invalid value for " ++ name
  | unknownCommand => "No such command"

def UsageError.code : Nat := 2

namespace Arguments

def value? (a : Arguments) (name : String) : Option String := a.options.find? name

def has (a : Arguments) (name : String) : Bool := a.options.contains name

def setOption (a : Arguments) (o : OptionSpec) (value : String) : Arguments :=
  { a with options := a.options.put o.key value }

/-- Reads an argument of short options, such as `-wb` with a value after it. The rest of the argument is the
value of the first option that takes one; if nothing is left of it, `next` is. The flag in the answer says
whether `next` was taken. -/
def readShort (specs : List OptionSpec) (next : Option String) :
    List Char → Arguments → Except UsageError (Arguments × Bool)
  | [], a => .ok (a, false)
  | c :: cs, a =>
    let name := String.ofList ['-', c]
    match OptionSpec.find? specs name with
    | none => .error (.unknownOption name)
    | some o =>
      if !o.takesValue then readShort specs next cs (a.setOption o "")
      else match cs, next with
        | _ :: _, _ => .ok (a.setOption o (.ofList cs), false)
        | [], some value => .ok (a.setOption o value, true)
        | [], none => .error (.missingValue name)

/-- Reads an option that is given by its whole name, with its value after an equals sign or in `next`. -/
def readLong (o : OptionSpec) (name : String) (given next : Option String) (a : Arguments) :
    Except UsageError (Arguments × Bool) :=
  match o.takesValue, given, next with
  | false, none, _ => .ok (a.setOption o "", false)
  | false, some _, _ => .error (.unexpectedValue name)
  | true, some value, _ => .ok (a.setOption o value, false)
  | true, none, some value => .ok (a.setOption o value, true)
  | true, none, none => .error (.missingValue name)

def readOption (specs : List OptionSpec) (arg : String) (next : Option String) (a : Arguments) :
    Except UsageError (Arguments × Bool) :=
  let (name, given) := cutFirst '=' arg.toList
  let name := String.ofList name
  let isLong := startsWith "--" arg
  match OptionSpec.find? specs name with
  | some o =>
    if isLong then readLong o name (given.map .ofList) next a else readShort specs next (arg.toList.drop 1) a
  | none => if isLong then .error (.unknownOption name) else readShort specs next (arg.toList.drop 1) a

def isOption (arg : String) : Bool := startsWith "-" arg && arg != "-"

/-- Reads all arguments. After `--` all are operands; if `interspersed` is not set, so is all from the first
operand on. -/
def readFrom (specs : List OptionSpec) (interspersed : Bool) :
    List String → Arguments → Except UsageError Arguments
  | [], a => .ok a
  | arg :: rest, a =>
    if arg == "--" then .ok { a with operands := a.operands ++ rest }
    else if isOption arg then
      match readOption specs arg rest.head? a, rest with
      | .error e, _ => .error e
      | .ok (a, true), _ :: rest => readFrom specs interspersed rest a
      | .ok (a, _), rest => readFrom specs interspersed rest a
    else if interspersed then readFrom specs interspersed rest { a with operands := a.operands ++ [arg] }
    else .ok { a with operands := arg :: rest }

def read (specs : List OptionSpec) (args : List String) : Except UsageError Arguments :=
  readFrom (.flag ["--help"] :: specs) true args {}

def readLeading (specs : List OptionSpec) (args : List String) : Except UsageError Arguments :=
  readFrom (.flag ["--help"] :: specs) false args {}

end Arguments

open Command

def isArgumentBlank (c : Char) : Bool := isBlank c && !(28 ≤ c.toNat && c.toNat ≤ 31)

/-- The digits before a fraction of zeros only; with any other fraction there are none. -/
def beforeZeros? (cs : List Char) : Option (List Char) :=
  match cutFirst '.' cs with
  | (_, none) => some cs
  | (front, some zeros) => if !zeros.isEmpty && zeros.all (· == '0') then some front else none

/-- A count on the command line, which is at least one: digits of ASCII with single low lines between them,
perhaps after a plus and zeros, and perhaps before a fraction that is zero. -/
def readCount? (s : String) : Option Nat :=
  let cs := trimWhile isArgumentBlank s.toList
  let cs := (after? ['+'] cs).getD cs
  let rest := if cs.head? = some '0' then cs.dropWhile (fun c => c == '0' || c == '_') else cs
  match rest with
  | [] => none
  | c :: _ =>
    if c == '0' || !isAsciiDigit c then none
    else (beforeZeros? rest).bind fun front =>
      (ungroup? front).bind fun digits => (readDigits digits).toOption

def explainOptions : List OptionSpec := [
  .valued ["--base", "-b"], .valued ["--head"], .flag ["--working-tree", "-w"], .valued ["--repo", "-r"],
  .valued ["--format", "-f"], .valued ["--output", "-o"], .flag ["--no-deps"], .valued ["--concurrency"]]

def depsOptions : List OptionSpec := [.valued ["--ref"], .valued ["--repo", "-r"]]

def readConcurrency (a : Arguments) : Except UsageError (Option Nat) :=
  match a.value? "--concurrency" with
  | none => .ok none
  | some text =>
    match readCount? text with
    | some n => .ok (some n)
    | none => .error (.badValue "--concurrency")

/-- The directory of the repository. A file is none, but it need not be there. -/
def readDirectory (tree : WorkTree) (a : Arguments) (default : String) : Except UsageError String :=
  let path := (a.value? "--repo").getD default
  match tree.find? (Path.tidy path) with
  | some (.file _) => .error (.badValue path)
  | _ => .ok path

def readExplain (tree : WorkTree) (a : Arguments) : Except UsageError Request := do
  unless a.operands.isEmpty do throw .wrongOperands
  let given : ExplainOptions := {}
  return .explain {
    concurrency := ← readConcurrency a
    repo := ← readDirectory tree a given.repo
    base := (a.value? "--base").getD given.base
    head := (a.value? "--head").getD given.head
    workingTree := a.has "--working-tree"
    format := (a.value? "--format").getD given.format
    output := a.value? "--output"
    noDeps := a.has "--no-deps" }

/-- A file whose declarations are asked for has to be there. -/
def readDeclarations (tree : WorkTree) (a : Arguments) : Except UsageError Request :=
  match a.operands with
  | [path] =>
    match tree.find? (Path.tidy path) with
    | some (.file _) => .ok (.declarations path)
    | _ => .error (.badValue path)
  | _ => .error .wrongOperands

def readDeps (tree : WorkTree) (a : Arguments) : Except UsageError Request := do
  if a.operands.isEmpty then throw .wrongOperands
  let given : DepsOptions := { files := a.operands }
  return .deps { given with repo := ← readDirectory tree a given.repo, ref := (a.value? "--ref").getD given.ref }

def readAlone (request : Request) (a : Arguments) : Except UsageError Request :=
  if a.operands.isEmpty then .ok request else .error .wrongOperands

def readConfigSet (a : Arguments) : Except UsageError Request :=
  match a.operands with
  | [key, value] => .ok (.configSet key value)
  | _ => .error .wrongOperands

def readCommand (specs : List OptionSpec) (args : List String) (body : Arguments → Except UsageError Request) :
    Except UsageError Request := do
  let a ← Arguments.read specs args
  if a.has "--help" then return .help
  body a

def readConfig (args : List String) : Except UsageError Request := do
  let a ← Arguments.readLeading [] args
  if a.has "--help" then return .help
  match a.operands with
  | "show" :: args => readCommand [] args (readAlone .configShow)
  | "set" :: args => readCommand [] args readConfigSet
  | _ => throw .unknownCommand

/-- Reads what is asked for. The version and help are asked for in place of a command; of both the first is given. -/
def readRequest (tree : WorkTree) (args : List String) : Except UsageError Request := do
  let a ← Arguments.readLeading [.flag ["--version", "-v"], .flag ["--verbose"]] args
  if let some first := a.options.keys.find? fun key => key == "--version" || key == "--help" then
    return if first == "--version" then .version else .help
  match a.operands with
  | "explain" :: args => readCommand explainOptions args (readExplain tree)
  | "declarations" :: args => readCommand [] args (readDeclarations tree)
  | "deps" :: args => readCommand depsOptions args (readDeps tree)
  | "languages" :: args => readCommand [] args (readAlone .languages)
  | "config" :: args => readConfig args
  | _ => throw .unknownCommand

end ChangeLens.CommandLine
