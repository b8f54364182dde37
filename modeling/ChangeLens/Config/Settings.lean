import ChangeLens.Config.Value
import ChangeLens.Text.Number

/-! The numbers that an analysis can be tuned by, where they come from, and which are refused. -/
namespace ChangeLens.Config

inductive Key where
  | concurrency
  | maxRepoFiles
  | maxReverseDeps
  | secondRingThreshold
  | guardConditionMax
  | historyCount
  deriving DecidableEq

namespace Key

def all : List Key :=
  [concurrency, maxRepoFiles, maxReverseDeps, secondRingThreshold, guardConditionMax, historyCount]

def word : Key → String
  | concurrency => "concurrency"
  | maxRepoFiles => "max_repo_files"
  | maxReverseDeps => "max_reverse_deps"
  | secondRingThreshold => "second_ring_threshold"
  | guardConditionMax => "guard_condition_max"
  | historyCount => "history_count"

def ofWord? (w : String) : Option Key := all.find? (·.word == w)

def least : Key → Nat
  | concurrency => 1
  | _ => 0

def envName? : Key → Option String
  | concurrency => some "DIFFINTEL_CONCURRENCY"
  | maxReverseDeps => some "DIFFINTEL_MAX_REVERSE_DEPS"
  | maxRepoFiles => some "DIFFINTEL_MAX_REPO_FILES"
  | _ => none

end Key

structure Settings where
  concurrency : Nat := 20
  maxRepoFiles : Nat := 5000
  maxReverseDeps : Nat := 100
  secondRingThreshold : Nat := 50
  guardConditionMax : Nat := 80
  historyCount : Nat := 5
  deriving DecidableEq

inductive SettingsError where
  | unknownKey (word : String)
  /-- What was given instead of a whole number, as a message shows it. -/
  | notWhole (word shown : String)
  | outOfRange (key : Key) (value : Int)
  /-- The table of settings is no table. -/
  | notATable
  deriving DecidableEq

def SettingsError.report? : SettingsError → Option String
  | unknownKey word => some ("Unknown setting: " ++ word)
  | notWhole word shown => some (word ++ " must be an integer, got " ++ shown)
  | outOfRange key value => some (key.word ++ " out of range: " ++ toString value)
  | notATable => none

namespace Settings

def get (s : Settings) : Key → Nat
  | .concurrency => s.concurrency
  | .maxRepoFiles => s.maxRepoFiles
  | .maxReverseDeps => s.maxReverseDeps
  | .secondRingThreshold => s.secondRingThreshold
  | .guardConditionMax => s.guardConditionMax
  | .historyCount => s.historyCount

def toTable (s : Settings) : Table := Key.all.map fun k => (k.word, .whole (s.get k))

/-- A value for a setting, if it is a whole number in range. Nothing given means the default. -/
def check (k : Key) : Option Value → Except SettingsError Nat
  | none => .ok (Settings.get {} k)
  | some (.whole value) =>
    if value < k.least then .error (.outOfRange k value) else .ok value.toNat
  | some value => .error (.notWhole k.word value.shown)

/-- The settings given by some values; the first one that is refused decides. -/
def ofValues (value? : Key → Option Value) : Except SettingsError Settings := do
  return ⟨← check .concurrency (value? .concurrency), ← check .maxRepoFiles (value? .maxRepoFiles),
    ← check .maxReverseDeps (value? .maxReverseDeps),
    ← check .secondRingThreshold (value? .secondRingThreshold),
    ← check .guardConditionMax (value? .guardConditionMax), ← check .historyCount (value? .historyCount)⟩

def tableName : String := "analysis"

def section? (document : Table) : Except SettingsError Table :=
  match document.lookup tableName with
  | none => .ok []
  | some (.table entries) => .ok entries
  | some _ => .error .notATable

def override? (env : String → Option String) (k : Key) : Option Value :=
  ((k.envName?.bind env).bind Text.readInt?).map .whole

/-- The settings of a document under an environment. If any value is refused, all are left at their
defaults. -/
def load (document : Table) (env : String → Option String) : Except SettingsError Settings := do
  let entries ← section? document
  match ofValues fun k => (override? env k).or (entries.lookup k.word) with
  | .ok s => return s
  | .error _ => return {}

def updated (document : Table) (word text : String) : Except SettingsError Settings := do
  let entries ← section? document
  match Key.ofWord? word with
  | none => .error (.unknownKey word)
  | some key =>
    match Text.readInt? text with
    | none => .error (.notWhole word (Text.quoted text))
    | some value => ofValues fun k => if k = key then some (.whole value) else entries.lookup k.word

end Settings
end ChangeLens.Config
