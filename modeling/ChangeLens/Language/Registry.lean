import ChangeLens.Language.Catalog
import ChangeLens.Path

/-! A registry of languages, looked up by id, extension or path. No two of its languages share an id, and
no extension is listed twice. -/
namespace ChangeLens

inductive RegistryError where
  | duplicateId (id : String)
  /-- The extension, the language that lists it already, and the one that lists it again. -/
  | claimedTwice (extension first second : String)
  deriving DecidableEq

def RegistryError.message : RegistryError → String
  | duplicateId id => "Duplicate language id: " ++ id
  | claimedTwice extension first second =>
    "Extension " ++ extension ++ " claimed by both " ++ first ++ " and " ++ second

structure Registry where
  languages : List Language

namespace Registry

/-- The language that lists an extension, letter by letter. -/
def listing? (r : Registry) (extension : String) : Option Language :=
  r.languages.find? (·.extensions.contains extension)

/-- Claims the extensions of the language `id` one by one. `claimed` holds those claimed before with their
languages. -/
def claim (id : String) : List String → List (String × String) →
    Except RegistryError (List (String × String))
  | [], claimed => .ok claimed
  | e :: es, claimed =>
    match claimed.lookup e with
    | some first => .error (.claimedTwice e first id)
    | none => claim id es ((e, id) :: claimed)

def check : List Language → List String → List (String × String) → Except RegistryError Unit
  | [], _, _ => .ok ()
  | l :: ls, ids, claimed =>
    if ids.contains l.id then .error (.duplicateId l.id)
    else match claim l.id l.extensions claimed with
      | .error e => .error e
      | .ok claimed => check ls (l.id :: ids) claimed

/-- The registry of some languages, if they do not clash. The first clash in their order is reported. -/
def build (languages : List Language) : Except RegistryError Registry :=
  (check languages [] []).map fun _ => ⟨languages.map (·.withFamily)⟩

def standard : Registry := ⟨Catalog.languages⟩

def get? (r : Registry) (id : String) : Option Language := r.languages.find? (·.id == id)

def contains (r : Registry) (id : String) : Bool := (r.get? id).isSome

/-- Extensions are compared in lower case. -/
def forExtension? (r : Registry) (extension : String) : Option Language := r.listing? (Text.lower extension)

def forPath? (r : Registry) (path : String) : Option Language := r.forExtension? (Path.extension path)

def familyFor (r : Registry) (path : String) : String := ((r.forPath? path).map (·.family)).getD ""

def extensions (r : Registry) : List String := (r.languages.flatMap (·.extensions)).mergeSort (· ≤ ·)

end Registry

def standardFamily (extension : String) : String :=
  ((Registry.standard.listing? extension).map (·.family)).getD ""

end ChangeLens
