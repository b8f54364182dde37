import ChangeLens.Proofs.Git.Collect
import Mathlib.Logic.Relation

/-! What the old side of a change is. Git compares two refs from where they parted, and the hunks of a file are
against that commit; what came before is looked up at the base itself. The two are one as long as the base is
behind the head. -/
namespace ChangeLens.Git

abbrev Files := (path : String) → Option String

structure History (κ : Type) where
  parents : κ → List κ
  content : κ → Files

namespace History

variable {κ : Type} (h : History κ)

/-- A commit counts as an ancestor of itself. -/
def Ancestor (a b : κ) : Prop := Relation.ReflTransGen (fun child parent => parent ∈ h.parents child) b a

/-- A common ancestor of two commits that is no ancestor of another one. -/
structure IsMergeBase (m a b : κ) : Prop where
  left : h.Ancestor m a
  right : h.Ancestor m b
  last : ∀ c, h.Ancestor c a → h.Ancestor c b → h.Ancestor m c → c = m

variable {h}

theorem IsMergeBase.eq_of_behind {m a b : κ} (parted : h.IsMergeBase m a b) (behind : h.Ancestor a b) : m = a :=
  (parted.last a .refl behind parted.left).symm

end History

/-- What git is relied on for: `base` and `head` name the commits `a` and `b`, and a comparison from where they
parted says what `compare` makes of the files there and at the head. -/
structure Serves {κ : Type} (r : Repository) (h : History κ)
    (compare : (options : List String) → Files → Files → String) (base head : String) (a b m : κ) : Prop where
  parted : h.IsMergeBase m a b
  shows : ∀ path, (r.git ["show", base ++ ":" ++ path]).output? = h.content a path
  diff : ∀ options, r.git ("diff" :: (options ++ [base ++ "..." ++ head])) =
    .output (compare options (h.content m) (h.content b))

variable {r : Repository} {base : String} {concurrency count : Int} {set : ChangeSet}

/-- The hunks of a file are against the commit where the refs parted, and its old content is that of the base. They
go together if the base is behind the head. -/
theorem collect_old_side {κ : Type} {h : History κ} {compare : (options : List String) → Files → Files → String}
    {head : String} {a b m : κ} (serves : Serves r h compare base head a b m) (named : head ≠ "")
    (collected : (collect r base (some head) concurrency count).value = .ok set) :
    set.rawDiff = compare ["-M"] (h.content m) (h.content b) ∧
      ∀ f ∈ set.files,
        f.hunks = some (((Patch.byPath set.rawDiff).find? f.path).getD ⟨"", 0, 0⟩).hunks ∧
        (f.status ≠ .added →
          f.oldContent = h.content a (before f.path f.oldPath) ∧
          (h.Ancestor a b → f.oldContent = h.content m (before f.path f.oldPath))) := by
  obtain ⟨listing, rawDiff, listed, -, diffs, -, rfl, files⟩ := collect_cases collected
  rw [diffCommand, range_of_named base named] at diffs
  refine ⟨Reply.output.inj (diffs.symm.trans (serves.diff ["-M"])), fun f member => ?_⟩
  obtain ⟨l, -, rfl⟩ := files f member
  refine ⟨rfl, fun notAdded => ?_⟩
  have old := serves.shows (before l.path l.oldPath)
  dsimp only [fileOf, showCommand] at notAdded ⊢
  rw [if_neg notAdded, old]
  exact ⟨rfl, fun behind => by rw [serves.parted.eq_of_behind behind]⟩

def rate (percent : String) : String := "def rate():\n    return " ++ percent ++ "\n"

/-- One commit, and two that each changed the rate that it set. -/
def forked : History (Fin 3) where
  parents c := if c = 0 then [] else [0]
  content c path := if path = "rates.py" then some (rate (["1", "2", "3"].getD c.val "")) else none

def compareRates (options : List String) (old new : Files) : String :=
  if old "rates.py" = new "rates.py" then ""
  else if options.contains "--name-status" then "M\trates.py\n"
  else "diff --git a/rates.py b/rates.py\n--- a/rates.py\n+++ b/rates.py\n@@ -1,2 +1,2 @@\n def rate():\n" ++
    "-    return 1\n+    return 3\n"

def forkedGit : Command → Reply
  | ["show", object] =>
    if object = "main:rates.py" then .output (rate "2")
    else if object = "topic:rates.py" then .output (rate "3")
    else .failure 128 ("fatal: " ++ object)
  | "diff" :: arguments => .output (compareRates arguments.dropLast (forked.content 0) (forked.content 2))
  | _ => .failure 128 ""

def forkedRepository : Repository := ⟨forkedGit, fun _ => none⟩

theorem forked_ancestor {c d : Fin 3} (ancestor : forked.Ancestor c d) : c = d ∨ c = 0 := by
  induction ancestor with
  | refl => exact .inl rfl
  | tail _ parent _ =>
    refine .inr ?_
    simp only [forked] at parent
    split at parent
    next => exact absurd parent List.not_mem_nil
    next => exact List.mem_singleton.mp parent

theorem forked_parted : forked.IsMergeBase 0 1 2 where
  left := .single (by decide)
  right := .single (by decide)
  last c left right _ := by
    rcases forked_ancestor left with rfl | first
    · exact absurd (forked_ancestor right) (by decide)
    · exact first

theorem forked_show (object : String) : forkedRepository.git ["show", object] =
    if object = "main:rates.py" then .output (rate "2")
    else if object = "topic:rates.py" then .output (rate "3")
    else .failure 128 ("fatal: " ++ object) := rfl

theorem object_eq_iff (ref path : String) :
    ref ++ ":" ++ path = ref ++ ":rates.py" ↔ path = "rates.py" := by
  rw [String.append_assoc, String.append_right_inj, show ":rates.py" = ":" ++ "rates.py" from rfl,
    String.append_right_inj]

theorem main_ne_topic (rest other : String) : "main" ++ rest ≠ "topic" ++ other := by
  intro same
  have first := congrArg (·.toList.head?) same
  simp at first

theorem forked_serves : Serves forkedRepository forked compareRates "main" "topic" 1 2 0 where
  parted := forked_parted
  shows path := by
    have main : "main" ++ ":" ++ path = "main:rates.py" ↔ path = "rates.py" := object_eq_iff "main" path
    have topic : "main" ++ ":" ++ path ≠ "topic:rates.py" := by
      rw [String.append_assoc]
      exact main_ne_topic _ ":rates.py"
    rw [forked_show, if_neg topic]
    by_cases known : path = "rates.py"
    · rw [if_pos (main.mpr known), known]
      rfl
    · rw [if_neg (mt main.mp known)]
      exact (if_neg known).symm
  diff options := by simp [forkedRepository, forkedGit]

def forkedChange : ChangeSet where
  files := [{
    path := "rates.py"
    status := .modified
    hunks := some "@@ -1,2 +1,2 @@\n def rate():\n-    return 1\n+    return 3\n"
    oldContent := some (rate "2")
    newContent := some (rate "3")
    additions := 1
    deletions := 1 }]
  rawDiff := compareRates ["-M"] (forked.content 0) (forked.content 2)
  baseRef := "main"
  headRef := some "topic"

set_option maxRecDepth 10000 in
theorem collect_forked : (collect forkedRepository "main" (some "topic") 20 5).value = .ok forkedChange := by
  rfl

theorem collect_old_side_forked :
    Serves forkedRepository forked compareRates "main" "topic" 1 2 0 ∧ "topic" ≠ "" ∧
      (collect forkedRepository "main" (some "topic") 20 5).value = .ok forkedChange ∧
      ∀ f ∈ forkedChange.files, f.status ≠ .added → f.oldContent = forked.content 1 (before f.path f.oldPath) := by
  have named : "topic" ≠ "" := by decide
  obtain ⟨-, files⟩ := collect_old_side forked_serves named collect_forked
  exact ⟨forked_serves, named, collect_forked, fun f member notAdded => ((files f member).2 notAdded).1⟩

/-- The hunks take a rate of 1 to 3, and the old content has it at 2. -/
theorem old_side_not_merge_base :
    Serves forkedRepository forked compareRates "main" "topic" 1 2 0 ∧
      (collect forkedRepository "main" (some "topic") 20 5).value = .ok forkedChange ∧
      ∃ f ∈ forkedChange.files, f.status = .modified ∧
        f.oldContent ≠ forked.content 0 (before f.path f.oldPath) := by
  refine ⟨forked_serves, collect_forked, _, .head _, rfl, ?_⟩
  decide

end ChangeLens.Git
