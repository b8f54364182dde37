import ChangeLens.Change.Basic
import ChangeLens.Change.Stem
import ChangeLens.Text.Split

/-! Hints at what an added declaration resembles, so that a reader takes it for a change of what exists
rather than for something new. -/
namespace ChangeLens.Change

/-- The names of imports are statements, so they resemble nothing. -/
def relatable (kind : Kind) : Bool := kind != .importing

def maxRelated : Nat := 3

/-- The first few names of the base that an added name resembles: same kind, shared stem, another name. -/
def relatedNames (base : List Declaration) (kind : Kind) (name : String) : List String :=
  (((Declaration.byName base).values.filter fun d =>
    d.kind == kind && d.name != name && Stem.related name d.name).map (·.name)).take maxRelated

def withRelated (base : List Declaration) (c : Change) : Change :=
  if c.action = .added ∧ relatable c.kind then
    match relatedNames base c.kind c.name with
    | [] => c
    | names => { c with detail := some ("related existing: " ++ Text.joinWith ", " names) }
  else c

def annotateRelated (changes : List Change) (base : List Declaration) : List Change :=
  changes.map (withRelated base)

end ChangeLens.Change
