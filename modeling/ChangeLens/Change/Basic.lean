import ChangeLens.Declaration

/-! What changed between two versions of a file, declaration by declaration. Texts are compared, lines are
not: moving a declaration changes nothing. -/
namespace ChangeLens

/-- What happened to a file. Words beyond the first four come only from outside. -/
inductive Status where
  | added
  | modified
  | deleted
  | renamed
  | unknown (word : String)
  deriving DecidableEq

namespace Status

def word : Status → String
  | added => "added"
  | modified => "modified"
  | deleted => "deleted"
  | renamed => "renamed"
  | unknown word => word

def ofWord : String → Status
  | "added" => added
  | "modified" => modified
  | "deleted" => deleted
  | "renamed" => renamed
  | word => unknown word

theorem word_ofWord (w : String) : (ofWord w).word = w := by
  unfold ofWord; split <;> rfl

end Status

inductive Action where
  | added
  | removed
  | modified
  | unknown (word : String)
  deriving DecidableEq

namespace Action

def word : Action → String
  | added => "added"
  | removed => "removed"
  | modified => "modified"
  | unknown word => word

def ofWord : String → Action
  | "added" => added
  | "removed" => removed
  | "modified" => modified
  | word => unknown word

theorem word_ofWord (w : String) : (ofWord w).word = w := by
  unfold ofWord; split <;> rfl

end Action

structure Change where
  file : String
  kind : Kind
  action : Action
  name : String
  startLine : Option Int := none
  detail : Option String := none
  deriving DecidableEq

namespace Change

def of (path : String) (action : Action) (d : Declaration) : Change :=
  ⟨path, d.kind, action, d.name, some d.startLine, none⟩

/-- What the new side says of a name: nothing if its text is as before. -/
def arriving? (path : String) (old : Keyed Declaration) (name : String) (d : Declaration) : Option Change :=
  match old.find? name with
  | none => some (of path .added d)
  | some before => if before.rawText = d.rawText then none else some (of path .modified d)

/-- The changes from `old` to `new`: first what is gone, in the old order, then what is new or different, in
the new order. In a file that was added or deleted as a whole every declaration counts, also one of two with
the same name. -/
def between (path : String) (status : Status) (old new : List Declaration) : List Change :=
  match status with
  | .added => new.map (of path .added)
  | .deleted => old.map (of path .removed)
  | _ =>
    let before := Declaration.byName old
    let now := Declaration.byName new
    (before.entries.filter fun (name, _) => !now.contains name).map (fun (_, d) => of path .removed d) ++
    now.entries.filterMap fun (name, d) => arriving? path before name d

end Change
end ChangeLens
