import ChangeLens.Sorted

/-! The tracked files of a repository, listed when they are first asked for and kept until the index is
reset. A listing that fails counts as empty and is not tried again. -/
namespace ChangeLens

structure FileIndex where
  /-- The files held, sorted; none before the first question. -/
  held : Option (List String) := none
  /-- The same files as a set. Membership is asked of the set and never of the list. -/
  among : (path : String) → Bool := fun _ => false
  /-- How often the files were listed. -/
  loads : Nat := 0

namespace FileIndex

/-- The distinct non-empty paths of a listing, in order. -/
def snapshot (listing : Option (List String)) : List String :=
  sortDistinct (· ≤ ·) ((listing.getD []).filter (!·.isEmpty))

/-- The files of the index, where `listing` is what listing them now would give. -/
def files (x : FileIndex) (listing : Option (List String)) : List String × FileIndex :=
  match x.held with
  | some files => (files, x)
  | none =>
    let files := snapshot listing
    (files, ⟨some files, files.contains, x.loads + 1⟩)

def contains (x : FileIndex) (listing : Option (List String)) (path : String) : Bool × FileIndex :=
  let next := (x.files listing).2
  (next.among path, next)

def size (x : FileIndex) (listing : Option (List String)) : Nat × FileIndex :=
  let (files, next) := x.files listing
  (files.length, next)

def reset (x : FileIndex) : FileIndex := { x with held := none, among := fun _ => false }

end FileIndex
end ChangeLens
