import ChangeLens.Keyed
import ChangeLens.Path
import ChangeLens.Text.Utf8

/-! A directory with files in it, by their paths from there. A directory is there as long as a file is in it. -/
namespace ChangeLens

structure WorkTree where
  /-- Contents by path; the segments of a path are names. -/
  files : Keyed (List UInt8)

namespace WorkTree

inductive Entry where
  | file (content : List UInt8)
  | directory

def isDirectory (t : WorkTree) (path : String) : Bool :=
  path.isEmpty || t.files.keys.any (Text.startsWith (path ++ "/") ·)

/-- The directory above one that is given by its names in reverse. Above the tree it is written with dots. -/
def outer : List String → List String
  | [] => [".."]
  | name :: names => if name == ".." then ".." :: name :: names else names

/-- Goes down a path, segment by segment, from the directory `here`, whose names are in reverse. Nothing can
be found below a file. Above the tree are the directories that it lies in, empty but for files written there. -/
def walk? (t : WorkTree) (here : List String) : List String → Option (List String × Entry)
  | [] => some (here, .directory)
  | segment :: rest =>
    if segment == "" || segment == "." then walk? t here rest
    else if segment == ".." then walk? t (outer here) rest
    else
      let path := Text.joinWith "/" (segment :: here).reverse
      match t.files.find? path with
      | some content => if rest.isEmpty then some (segment :: here, .file content) else none
      | none => if t.isDirectory path then walk? t (segment :: here) rest else none

/-- What a path leads to. A path that begins with a slash leads out of the tree. -/
def find? (t : WorkTree) (path : String) : Option Entry :=
  if Text.startsWith "/" path || path.isEmpty then none
  else (t.walk? [] (Text.splitAt '/' path)).map (·.2)

def read? (t : WorkTree) (path : String) : Option String :=
  match t.find? (Path.tidy path) with
  | some (.file content) => some (Text.decodeFile content)
  | _ => none

/-- Whether a file can be given this name: the null character ends names, and they have a greatest length. -/
def isFileName (name : String) : Bool :=
  name != "." && name != ".." && !name.toList.contains '\x00' && name.utf8ByteSize ≤ 255

def write? (t : WorkTree) (path : String) (content : String) : Option WorkTree :=
  let path := Path.tidy path
  let segments := Text.splitAt '/' path
  match segments.getLast?, t.find? path with
  | some name, entry =>
    if Text.startsWith "/" path || !isFileName name then none
    else match entry, t.walk? [] segments.dropLast with
      | some .directory, _ => none
      | _, some (here, .directory) =>
        some ⟨t.files.put (Text.joinWith "/" (name :: here).reverse) content.toUTF8.toList⟩
      | _, _ => none
  | none, _ => none

end WorkTree
end ChangeLens
