import ChangeLens.Text.Blank
import ChangeLens.Text.Lowercase
import ChangeLens.Text.Split

/-! Paths of files in a repository: segments between slashes, `.` for here and `..` for the directory
above. All functions work on the text of a path; none looks at a file system. -/
namespace ChangeLens.Path

open Text

def lastSegment (path : List Char) : List Char := (cutLast '/' path).2

/-- The name without the dots in front of it: those mark a hidden file and begin no extension. -/
def visible (name : List Char) : List Char := name.dropWhile (· == '.')

/-- The extension of a path in lower case with its dot, or nothing. A language is chosen by it. -/
def extension (path : String) : String :=
  let name := lastSegment path.toList
  if (visible name).contains '.' then "." ++ lower (.ofList (cutLast '.' name).2) else ""

/-- The path cut before its extension, which keeps its case here. -/
def splitExtension (path : String) : String × String :=
  let cs := path.toList
  let name := lastSegment cs
  match cutLast '.' name with
  | (some stem, ext) =>
    if stem.all (· == '.') then (path, "")
    else (.ofList (cs.take (cs.length - ext.length - 1)), .ofList ('.' :: ext))
  | (none, _) => (path, "")

/-- The directory of a path: all before its last slash. Slashes that end it are dropped, unless it is
nothing but slashes. -/
def directory (path : String) : String :=
  let cs := path.toList
  let head := cs.take (cs.length - (lastSegment cs).length)
  if head.all (· == '/') then .ofList head else .ofList (dropEndWhile (· == '/') head)

/-- A path as seen from a directory. A path that begins with a slash is seen from the root. -/
def join (base path : String) : String :=
  if startsWith "/" path then path
  else if base.isEmpty || base.toList.getLast? == some '/' then base ++ path
  else base ++ "/" ++ path

/-- Follows one more segment. `kept` holds the segments followed so far, last first. -/
def step (rooted : Bool) (kept : List String) (segment : String) : List String :=
  if segment == "" || segment == "." then kept
  else if segment != ".." then segment :: kept
  else match kept with
    | [] => if rooted then [] else [".."]
    | last :: rest => if last == ".." then segment :: kept else rest

def leadingSlashes (path : String) : Nat :=
  match path.toList with
  | '/' :: '/' :: '/' :: _ => 1
  | '/' :: '/' :: _ => 2
  | '/' :: _ => 1
  | _ => 0

/-- The shortest path that leads to the same place, where `..` takes back the segment before it. -/
def normalize (path : String) : String :=
  let slashes := leadingSlashes path
  let segments := (splitAt '/' path).foldl (step (slashes != 0)) [] |>.reverse
  let body := joinWith "/" segments
  let result := .ofList (List.replicate slashes '/') ++ body
  if result.isEmpty then "." else result

/-- The path without empty segments and without `.`; what `..` leads to is left open. -/
def tidy (path : String) : String :=
  let segments := (splitAt '/' path).filter fun s => s != "" && s != "."
  let result := .ofList (List.replicate (leadingSlashes path) '/') ++ joinWith "/" segments
  if result.isEmpty then "." else result

def name (path : String) : String := .ofList (lastSegment path.toList)

/-- The extension that a name shows, with its case: what stands from the last dot on, unless the dot stands
first or last. -/
def suffix (path : String) : String :=
  match cutLast '.' (lastSegment path.toList) with
  | (some (_ :: _), c :: ext) => .ofList ('.' :: c :: ext)
  | _ => ""

end ChangeLens.Path
