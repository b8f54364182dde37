import ChangeLens.Config.Settings
import ChangeLens.Keyed
import ChangeLens.Text.Utf8

/-! The stored configuration. It is kept as the text of a document and read anew each time. Saving settings replaces
their table and keeps all else that is stored, as far as it reads back. How documents are read and written, and what
becomes of a write, is left open here. -/
namespace ChangeLens.Config

/-- A format of documents, with the faults that end their reading or writing. -/
structure Format (ε : Type) where
  parse : (text : String) → Except ε Table
  render : Table → Except ε String
  /-- Whether a text with this fault is no document. -/
  isMalformed : ε → Bool
  /-- How a fault is told, if it is told at all, to whoever wanted a setting changed. -/
  report? : ε → Option String

/-- What becomes of a text that is to be stored. -/
structure Medium where
  /-- Whether anything can be put in the place of what is stored. -/
  opens : Bool := true
  /-- What is left of a text that cannot be written to its end. -/
  cut? : (text : String) → Option String := fun _ => none

inductive Store where
  | absent
  | text (content : String)
  /-- Something stands in its place that cannot be read. -/
  | unreadable
  deriving DecidableEq

inductive StoreError (ε : Type) where
  | settings (e : SettingsError)
  | document (fault : ε)
  | unwritten (path : String)
  deriving DecidableEq

def StoreError.report? (f : Format ε) : StoreError ε → Option String
  | settings e => e.report?
  | document fault => f.report? fault
  | unwritten path => some ("Could not write config file " ++ path)

namespace Store

variable (f : Format ε) (m : Medium)

/-- The table that is stored. A text that is no document counts as empty. -/
def read : Store → Except ε Table
  | text content =>
    match f.parse (.ofList (Text.unifyLineEnds content.toList)) with
    | .ok table => .ok table
    | .error fault => if f.isMalformed fault then .ok [] else .error fault
  | _ => .ok []

/-- Replaces what is stored by a table, and tells whether it was written. The old text is gone before the new one is
made, so a table that cannot be written leaves an empty one. -/
def write (table : Table) (store : Store) : Except ε Bool × Store :=
  if !m.opens then (.ok false, store)
  else
    match f.render table with
    | .error fault => (.error fault, text "")
    | .ok content =>
      match m.cut? content with
      | some left => (.ok false, text left)
      | none => (.ok true, text content)

def save (s : Settings) (store : Store) : Except ε Bool × Store :=
  match store.read f with
  | .error fault => (.error fault, store)
  | .ok t => store.write f m (((⟨t⟩ : Keyed Value).put Settings.tableName (.table s.toTable)).entries)

def load (store : Store) (env : String → Option String) : Except (StoreError ε) Settings :=
  match store.read f with
  | .error fault => .error (.document fault)
  | .ok t => (Settings.load t env).mapError .settings

def updated (store : Store) (word text : String) : Except (StoreError ε) Settings :=
  match store.read f with
  | .error fault => .error (.document fault)
  | .ok t => (Settings.updated t word text).mapError .settings

/-- Sets one setting from a text and saves. `path` is where the configuration lies, for the message. -/
def update (store : Store) (path word text : String) : Except (StoreError ε) Settings × Store :=
  match store.updated f word text with
  | .error e => (.error e, store)
  | .ok s =>
    match store.save f m s with
    | (.ok true, next) => (.ok s, next)
    | (.ok false, next) => (.error (.unwritten path), next)
    | (.error fault, next) => (.error (.document fault), next)

end Store
end ChangeLens.Config
