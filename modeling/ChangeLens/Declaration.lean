import ChangeLens.Keyed

/-! Declarations: what a file introduces at its top level. A declaration is known by its name; of two with
one name the later counts. -/
namespace ChangeLens

/-- What a declaration introduces. The table of languages uses the first six; a language that is described
from outside may bring words of its own. -/
inductive Kind where
  | function
  | classLike
  | importing
  | exporting
  | binding
  | other
  | custom (word : String)
  deriving DecidableEq

namespace Kind

def word : Kind → String
  | function => "function"
  | classLike => "class"
  | importing => "import"
  | exporting => "export"
  | binding => "variable"
  | other => "other"
  | custom word => word

def ofWord : String → Kind
  | "function" => function
  | "class" => classLike
  | "import" => importing
  | "export" => exporting
  | "variable" => binding
  | "other" => other
  | word => custom word

theorem word_ofWord (w : String) : (ofWord w).word = w := by
  unfold ofWord; split <;> rfl

end Kind

structure Declaration where
  name : String
  kind : Kind
  rawText : String
  startLine : Int
  deriving DecidableEq

namespace Declaration

def label (d : Declaration) : String := d.name ++ " (" ++ d.kind.word ++ ")"

/-- Declarations by name, in the order in which the names first appear. -/
def byName (ds : List Declaration) : Keyed Declaration := .ofList (ds.map fun d => (d.name, d))

end Declaration

def anonymous : String := "<anonymous>"

end ChangeLens
