import ChangeLens.Language.Naming

/-! Languages as data: which files are written in a language, which grammar parses it, and what the nodes
at the top level of a file declare. -/
namespace ChangeLens

/-- Where the grammar of a language is found: a package and the symbol in it that holds the grammar. -/
structure Grammar where
  package : String
  symbol : String
  deriving DecidableEq

/-- What a node declares. Without a naming rule the name is that of the name field. -/
structure NodeRule where
  kind : Kind
  naming : Option Naming := none

structure Language where
  id : String
  extensions : List String
  grammar : Grammar
  rules : List (String × NodeRule)
  /-- Nodes that only wrap a declaration, and the field that holds it. -/
  wrappers : List (String × String) := []
  /-- Languages of one family import each other's files. -/
  family : String

namespace Language

def rule? (l : Language) (type : String) : Option NodeRule := l.rules.lookup type

def customTypes (l : Language) : List String :=
  ((l.rules.filter fun (_, rule) => rule.naming.isSome).map (·.1)).mergeSort (· ≤ ·)

def withFamily (l : Language) : Language := if l.family.isEmpty then { l with family := l.id } else l

end Language
end ChangeLens
