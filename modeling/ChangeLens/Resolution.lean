import ChangeLens.Import.Clause
import ChangeLens.Language.Registry
import ChangeLens.Text.Split

/-! Where an import leads: the paths at which its file may lie, in order of priority, and the first of them
that is tracked. Only imports relative to the importing file can lead anywhere. -/
namespace ChangeLens.Resolution

open Text

/-- What stands between the dots, or nothing but them. -/
def onlyDots (specifier : String) : Bool := specifier.toList.all (· == '.')

/-- The path without extension that a dotted specifier names: one dot is the directory of the importing
file, each further dot the directory above. Without a dot, or above the root, it names none. -/
def dottedBase? (specifier fromFile : String) : Option String :=
  let cs := specifier.toList
  let dots := (cs.takeWhile (· == '.')).length
  let directory := Path.directory fromFile
  let parts := if directory.isEmpty then [] else splitAt '/' directory
  let rest := cs.drop dots
  if dots = 0 ∨ dots - 1 > parts.length then none
  else
    let names := if rest.isEmpty then [] else (rest.splitOn '.').map .ofList
    some (joinWith "/" (parts.take (parts.length - (dots - 1)) ++ names))

/-- Extensions that an ECMAScript import may leave out. -/
def impliedExtensions : List String := [".ts", ".tsx", ".js", ".jsx"]

/-- Extensions of files that run, for which the source may be a typed one. -/
def runtimeExtensions : List String := [".js", ".jsx", ".mjs", ".cjs"]

/-- The paths that a relative import may mean, once it is joined to its directory. -/
def expansions (resolved family : String) : List String :=
  let (stem, extension) := Path.splitExtension resolved
  if family == "ecmascript" then
    let written := if extension.isEmpty then [] else [resolved]
    let typed := if runtimeExtensions.contains extension then [stem ++ ".ts", stem ++ ".tsx"] else []
    (written ++ typed ++ impliedExtensions.map (resolved ++ ·) ++
      impliedExtensions.map (resolved ++ "/index" ++ ·)).eraseDups
  else if family == "ruby" then [if extension == ".rb" then resolved else resolved ++ ".rb"]
  else [resolved]

/-- The files of a module named by dots: itself, or the file that makes its directory a package. -/
def dottedPaths (specifier base : String) : List String :=
  let package := if base.isEmpty then "__init__.py" else base ++ "/__init__.py"
  if base.isEmpty || onlyDots specifier then [package] else [base ++ ".py", package]

def isRelative (specifier : String) : Bool :=
  startsWith "./" specifier || startsWith "../" specifier || specifier == "." || specifier == ".."

/-- A relative import joined to the directory of its file, unless it leads out of the repository. -/
def joined? (specifier fromFile : String) : Option String :=
  let joined := Path.normalize (Path.join (Path.directory fromFile) specifier)
  if joined == ".." || startsWith "../" joined || startsWith "/" joined then none
  else some (if joined == "." then "" else joined)

/-- The family to read an import in: the one given, or else that of the file by its extension. -/
def familyOf (family fromFile : String) : String :=
  if family.isEmpty then standardFamily (Path.extension fromFile) else family

/-- All paths at which the file of an import may lie. Where there is none the tracked files need not be
known at all. -/
def paths (specifier fromFile family : String) : List String :=
  let family := familyOf family fromFile
  if family == "python" then
    ((dottedBase? specifier fromFile).map (dottedPaths specifier)).getD []
  else if ["ecmascript", "ruby", "c"].contains family && isRelative specifier then
    ((joined? specifier fromFile).map fun resolved =>
      (expansions resolved family).map fun p => .ofList (p.toList.dropWhile (· == '/'))).getD []
  else []

def path? (tracked : List String) (specifier fromFile family : String) : Option String :=
  (paths specifier fromFile family).find? (tracked.contains ·)

/-- Whether an import names siblings, as `from . import a, b` does. -/
def namesSiblings (i : Import) (family : String) : Bool :=
  family == "python" && !i.specifier.isEmpty && onlyDots i.specifier && !i.symbols.isEmpty

def siblings (tracked : List String) (i : Import) (fromFile family : String) : List (String × List String) :=
  i.symbols.filterMap fun symbol =>
    (path? tracked (i.specifier ++ symbol) fromFile family).map fun target => (target, [symbol])

/-- The tracked files that an import leads to, with the names it takes from each. An import that names
siblings leads to those of them that are tracked; only if none is, it leads to the package. -/
def targets (tracked : List String) (i : Import) (fromFile family : String) : List (String × List String) :=
  let found := if namesSiblings i family then siblings tracked i fromFile family else []
  if found.isEmpty then
    ((path? tracked i.specifier fromFile family).map fun target => (target, i.symbols)).toList
  else found

/-- Whether the tracked files have to be known to tell where an import leads. -/
def consults (i : Import) (fromFile family : String) : Bool :=
  !(paths i.specifier fromFile family).isEmpty ||
    (namesSiblings i family &&
      i.symbols.any fun symbol => !(paths (i.specifier ++ symbol) fromFile family).isEmpty)

end ChangeLens.Resolution
