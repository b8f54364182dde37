import ChangeLens.Proofs.Dependency.Scan
import Mathlib.Data.List.Induction

/-! The files that an index tells of. Between two resets it asks for the list of files once, when it is first needed,
and every answer comes from what it was told then, be it that the list could not be had. -/
namespace ChangeLens.FileIndex

/-- What listing the files gives when it is done once more, by how often it has been done. It may fail. -/
abbrev Loader := (loads : Nat) → Option (List String)

inductive Request where
  | files
  | contains (path : String)
  | size
  | reset
  deriving DecidableEq

inductive Reply where
  | paths (files : List String)
  | membership (answer : Bool)
  | count (n : Nat)
  | done
  deriving DecidableEq

def Request.reply (files : List String) : Request → Reply
  | .files => .paths files
  | contains path => .membership (path ∈ files)
  | size => .count files.length
  | reset => .done

def serve (loader : Loader) (x : FileIndex) : Request → Reply × FileIndex
  | .files => (x.files (loader x.loads)).map .paths id
  | .contains path => (x.contains (loader x.loads) path).map .membership id
  | .size => (x.size (loader x.loads)).map .count id
  | .reset => (.done, x.reset)

def reached (loader : Loader) (requests : List Request) : FileIndex :=
  requests.foldl (fun x r => (x.serve loader r).2) {}

def untilReset (requests : List Request) : List Request := (requests.reverse.dropWhile (· ≠ .reset)).reverse

def sinceReset (requests : List Request) : List Request := (requests.reverse.takeWhile (· ≠ .reset)).reverse

/-- The files that are told of after some requests: those of the listing that follows the listings made up to the last
reset. -/
def current (loader : Loader) (requests : List Request) : List String :=
  snapshot (loader (reached loader (untilReset requests)).loads)

variable {loader : Loader} {before : List Request}

theorem reached_concat (loader : Loader) (requests : List Request) (r : Request) :
    reached loader (requests ++ [r]) = ((reached loader requests).serve loader r).2 := by
  rw [reached, List.foldl_concat]
  rfl

theorem untilReset_concat (requests : List Request) (r : Request) :
    untilReset (requests ++ [r]) = if r = .reset then requests ++ [r] else untilReset requests := by
  by_cases reset : r = .reset <;> simp [untilReset, reset]

theorem sinceReset_concat (requests : List Request) (r : Request) :
    sinceReset (requests ++ [r]) = if r = .reset then [] else sinceReset requests ++ [r] := by
  by_cases reset : r = .reset <;> simp [sinceReset, reset]

/-- The files are held, as a list and as a set. -/
structure Holds (files : List String) (x : FileIndex) : Prop where
  held : x.held = some files
  among : ∀ path, x.among path = files.contains path

/-- The index has listed the files since the last reset if it was asked for something since then, and holds them. -/
structure Settled (loader : Loader) (before : List Request) (x : FileIndex) : Prop where
  idle : sinceReset before = [] → x.held = none ∧ x.loads = (reached loader (untilReset before)).loads
  busy : sinceReset before ≠ [] → Holds (current loader before) x ∧
    x.loads = (reached loader (untilReset before)).loads + 1

/-- Any answer comes from the current files. They are listed for it if nothing was asked since the last reset. -/
theorem Settled.files {x : FileIndex} (settled : Settled loader before x) :
    ∃ next, x.files (loader x.loads) = (current loader before, next) ∧ Holds (current loader before) next ∧
      next.loads = (reached loader (untilReset before)).loads + 1 := by
  by_cases first : sinceReset before = []
  · obtain ⟨held, loads⟩ := settled.idle first
    rw [FileIndex.files, held, loads, ← current]
    exact ⟨_, rfl, ⟨rfl, fun _ => rfl⟩, rfl⟩
  · obtain ⟨holds, loads⟩ := settled.busy first
    rw [FileIndex.files, holds.held]
    exact ⟨x, rfl, holds, loads⟩

/-- One request other than a reset. -/
theorem Settled.serve {x : FileIndex} (settled : Settled loader before x) {r : Request} (asks : r ≠ .reset) :
    ∃ next, x.serve loader r = (r.reply (current loader before), next) ∧ Holds (current loader before) next ∧
      next.loads = (reached loader (untilReset before)).loads + 1 := by
  obtain ⟨next, given, holds, loads⟩ := settled.files
  refine ⟨next, ?_, holds, loads⟩
  cases r with
  | files => rw [FileIndex.serve, given]; rfl
  | contains path =>
    rw [FileIndex.serve, FileIndex.contains, given]
    simp [Request.reply, holds.among]
  | size => rw [FileIndex.serve, FileIndex.size, given]; rfl
  | reset => contradiction

theorem settled_reached (loader : Loader) (requests : List Request) :
    Settled loader requests (reached loader requests) := by
  induction requests using List.reverseRecOn with
  | nil => exact ⟨fun _ => ⟨rfl, rfl⟩, fun some => absurd rfl some⟩
  | append_singleton before r ih =>
    by_cases reset : r = .reset
    · subst reset
      constructor
      · rw [untilReset_concat, if_pos rfl, reached_concat]
        exact fun _ => ⟨rfl, rfl⟩
      · simp [sinceReset_concat]
    · obtain ⟨next, served, holds, loads⟩ := ih.serve reset
      rw [reached_concat, served]
      constructor
      · simp [sinceReset_concat, reset]
      · rw [current, untilReset_concat, if_neg reset]
        exact fun _ => ⟨holds, loads⟩

/-- The files are listed for the first request after the start or a reset, be it that they cannot be had, and for no
other one. Every reply up to the next reset comes from that listing: the distinct paths in it that are not empty, in
order. -/
theorem serve_from_one_listing (loader : Loader) (before : List Request) (r : Request) :
    let x := reached loader before
    let listing := loader (reached loader (untilReset before)).loads
    let files := current loader before
    (x.serve loader r).2.loads = (x.loads + if sinceReset before = [] ∧ r ≠ .reset then 1 else 0) ∧
      (x.serve loader r).1 = r.reply files ∧
      files.Pairwise (· < ·) ∧ ∀ path, path ∈ files ↔ path ≠ "" ∧ ∃ paths, listing = some paths ∧ path ∈ paths := by
  intro x listing files
  have settled : Settled loader before x := settled_reached loader before
  have served : (x.serve loader r).1 = r.reply files ∧
      (x.serve loader r).2.loads = (x.loads + if sinceReset before = [] ∧ r ≠ .reset then 1 else 0) := by
    by_cases reset : r = .reset
    · subst reset
      exact ⟨rfl, by simp [serve, FileIndex.reset]⟩
    · obtain ⟨next, served, -, loads⟩ := settled.serve reset
      rw [served, loads]
      refine ⟨rfl, ?_⟩
      by_cases first : sinceReset before = []
      · simp [first, reset, (settled.idle first).2]
      · simp [first, (settled.busy first).2]
  refine ⟨served.2, served.1, pairwise_snapshot listing, fun path => ?_⟩
  rw [show files = snapshot listing from rfl, mem_snapshot, and_comm]
  cases listing <;> simp

end ChangeLens.FileIndex
