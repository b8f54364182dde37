import ChangeLens.Language.Registry

/-! Parsing by language. Grammars come from packages that may or may not be installed; a language whose
grammar cannot be had is treated as one that cannot be parsed, and no failure stops an analysis.
`Session` is the same with a memory, so that each missing grammar is reported once. -/
namespace ChangeLens

inductive Shelf where
  | everything
  /-- Packages with the symbols that each of them has. -/
  | holding (packages : List (String × List String))

inductive Load where
  | loaded
  | notInstalled
  /-- The package is there, or cannot even be named, and does not give the grammar. -/
  | broken
  deriving DecidableEq

def Shelf.load (s : Shelf) (g : Grammar) : Load :=
  if g.package.isEmpty || Text.startsWith "." g.package then .broken
  else match s with
    | everything => .loaded
    | holding packages =>
      match packages.lookup g.package with
      | none => .notInstalled
      | some symbols => if symbols.contains g.symbol then .loaded else .broken

structure Toolchain where
  registry : Registry
  shelf : Shelf
  /-- What the grammar of a language makes of a source. -/
  parser : (language source : String) → Parse

namespace Toolchain

/-- Every language with a grammar: those of the registry, then those that only have a grammar. -/
def grammars (t : Toolchain) : Keyed Grammar :=
  (Catalog.untabled.filter fun u => !t.registry.contains u.id).foldl (fun m u => m.put u.id u.grammar)
    ⟨t.registry.languages.map fun l => (l.id, l.grammar)⟩

def available (t : Toolchain) (language : String) : Bool :=
  ((t.grammars.find? language).map fun g => t.shelf.load g == .loaded).getD false

def availableLanguages (t : Toolchain) : List String := t.grammars.keys.filter t.available

def languageFor? (t : Toolchain) (path : String) : Option String :=
  match t.registry.forPath? path with
  | some l => some l.id
  | none => (Catalog.untabled.find? (·.extension == Path.extension path)).map (·.id)

/-- An extension may be given with or without its dot. -/
def languageForExtension? (t : Toolchain) (extension : String) : Option String :=
  t.languageFor? ("file" ++ (if Text.startsWith "." extension then extension else "." ++ extension))

def supports (t : Toolchain) (extension : String) : Bool :=
  ((t.languageForExtension? extension).map t.available).getD false

def parse (t : Toolchain) (language source : String) : Parse :=
  if t.available language then t.parser language source else .failed

end Toolchain

inductive Warning where
  | notInstalled (language : String)
  | loadFailed (language : String)
  | parseFailed (language : String)
  deriving DecidableEq

/-- A toolchain that remembers for which languages it has asked for the grammar, and with what success. -/
structure Session where
  tools : Toolchain
  known : List (String × Bool)

namespace Session

def start (t : Toolchain) : Session := ⟨t, []⟩

structure Step (α : Type) where
  result : α
  warnings : List Warning
  next : Session

namespace Step

def map (f : α → β) (x : Step α) : Step β := ⟨f x.result, x.warnings, x.next⟩

def andThen (x : Step α) (f : α → Session → Step β) : Step β :=
  let y := f x.result x.next
  ⟨y.result, x.warnings ++ y.warnings, y.next⟩

end Step

/-- What the first request for a grammar reports. A language without any grammar is no cause for a warning. -/
def firstRequest (t : Toolchain) (language : String) : Bool × List Warning :=
  match (t.grammars.find? language).map t.shelf.load with
  | none => (false, [])
  | some .loaded => (true, [])
  | some .notInstalled => (false, [.notInstalled language])
  | some .broken => (false, [.loadFailed language])

def obtain (s : Session) (language : String) : Step Bool :=
  match s.known.lookup language with
  | some found => ⟨found, [], s⟩
  | none =>
    let (found, warnings) := firstRequest s.tools language
    ⟨found, warnings, { s with known := (language, found) :: s.known }⟩

/-- Asks for the grammars of all languages in order and keeps those that can be had. -/
def obtainAll (s : Session) : List String → Step (List String)
  | [] => ⟨[], [], s⟩
  | language :: languages =>
    let first := s.obtain language
    let rest := first.next.obtainAll languages
    ⟨if first.result then language :: rest.result else rest.result, first.warnings ++ rest.warnings, rest.next⟩

def availableLanguages (s : Session) : Step (List String) := s.obtainAll s.tools.grammars.keys

def supports (s : Session) (extension : String) : Step Bool :=
  match s.tools.languageForExtension? extension with
  | some language => s.obtain language
  | none => ⟨false, [], s⟩

def languageFor? (s : Session) (path : String) : Step (Option String) := ⟨s.tools.languageFor? path, [], s⟩

def parse (s : Session) (language source : String) : Step Parse :=
  let asked := s.obtain language
  if asked.result then
    match s.tools.parser language source with
    | .failed => { asked with result := .failed, warnings := asked.warnings ++ [.parseFailed language] }
    | parsed => { asked with result := parsed }
  else { asked with result := .failed }

end Session
end ChangeLens
