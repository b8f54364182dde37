import ChangeLens.Git.Collect
import ChangeLens.Proofs.Text.Pieces
import Mathlib.Data.List.Basic

/-! Names that the system takes, as arguments of a command and as paths of files: those without a null character. It
takes all that are asked for of a change if its refs are such names and git lists no null character. -/
namespace ChangeLens

namespace Git

def NullFree (name : String) : Prop := '\x00' ∉ name.toList

instance : DecidablePred NullFree := fun name => inferInstanceAs (Decidable ('\x00' ∉ name.toList))

@[simp] theorem holdsNull_iff {name : String} : holdsNull name = true ↔ ¬NullFree name := by
  simp [holdsNull, NullFree]

@[simp] theorem nullFree_append {a b : String} : NullFree (a ++ b) ↔ NullFree a ∧ NullFree b := by
  simp [NullFree]

theorem nullFree_repr (n : Nat) : NullFree n.repr := by
  intro member
  rw [Nat.toList_repr] at member
  exact absurd (Nat.isDigit_of_mem_toDigits (by decide) (by decide) member) (by decide)

theorem range_of_named (base : String) {head : String} (named : head ≠ "") :
    range base (some head) = base ++ "..." ++ head := by
  have kept : (!head.isEmpty) = true := by simpa using named
  rw [range, Option.filter_some, if_pos kept]

theorem nullFree_range_iff {base : String} {head : Option String} :
    NullFree (range base head) ↔ NullFree base ∧ ∀ ref ∈ head, NullFree ref := by
  have texts : NullFree "..." ∧ NullFree "" := by decide
  cases head with
  | none => simp [range]
  | some ref =>
    by_cases named : ref = ""
    · simp [range, named, texts, Option.filter_some]
    · simp [range_of_named base named, texts]

def Accepted (command : Command) : Prop := ∀ argument ∈ command, NullFree argument

instance : DecidablePred Accepted := fun command =>
  inferInstanceAs (Decidable (∀ argument ∈ command, NullFree argument))

def showCommand (ref path : String) : Command := ["show", ref ++ ":" ++ path]

def logCommand (path ref : String) (count : Int) : Command :=
  ["log", "--format=%h|%s|%cr", "-" ++ toString count, ref, "--", path]

def listingCommand (base : String) (head : Option String) : Command := ["diff", "--name-status", "-M", range base head]

def diffCommand (base : String) (head : Option String) : Command := ["diff", "-M", range base head]

theorem accepted_show_iff {ref path : String} : Accepted (showCommand ref path) ↔ NullFree ref ∧ NullFree path := by
  have words : NullFree "show" ∧ NullFree ":" := by decide
  simp [Accepted, showCommand, words]

theorem accepted_log_iff {path ref : String} {count : Int} (positive : 0 < count) :
    Accepted (logCommand path ref count) ↔ NullFree ref ∧ NullFree path := by
  have words : NullFree "log" ∧ NullFree "--format=%h|%s|%cr" ∧ NullFree "-" ∧ NullFree "--" := by decide
  obtain ⟨n, rfl⟩ := Int.eq_ofNat_of_zero_le (Int.le_of_lt positive)
  have number : NullFree (Int.repr n) := nullFree_repr n
  simp [Accepted, logCommand, words, number]

theorem accepted_listing_iff {base : String} {head : Option String} :
    Accepted (listingCommand base head) ↔ NullFree (range base head) := by
  have words : NullFree "diff" ∧ NullFree "--name-status" ∧ NullFree "-M" := by decide
  simp [Accepted, listingCommand, words]

theorem accepted_diff_iff {base : String} {head : Option String} :
    Accepted (diffCommand base head) ↔ NullFree (range base head) := by
  have words : NullFree "diff" ∧ NullFree "-M" := by decide
  simp [Accepted, diffCommand, words]

end Git

namespace Listed

open Git

def NullFree (l : Listed) : Prop := Git.NullFree l.path ∧ ∀ old ∈ l.oldPath, Git.NullFree old

theorem nullFree_of_mem_splitAt {sep : Char} {text part : String} (free : Git.NullFree text)
    (member : part ∈ Text.splitAt sep text) : Git.NullFree part := by
  rw [← Text.joinWith_splitAt sep text, Git.NullFree, Text.toList_joinWith] at free
  exact fun inside => free (Text.subset_intercalate [sep] (List.mem_map_of_mem member) inside)

theorem nullFree_trim {text : String} (free : Git.NullFree text) : Git.NullFree (Text.trim text) := by
  intro member
  rw [Text.trim, String.toList_ofList] at member
  exact free ((List.dropWhile_suffix _).subset ((Text.dropEndWhile_isPrefix _ _).subset member))

theorem nullFree_ofLine {line : String} {entry : Option Listed} (free : Git.NullFree line)
    (reads : ofLine line = .ok entry) : ∀ l ∈ entry, l.NullFree := by
  have field {part : String} (member : part ∈ Text.splitAt '\t' line) : Git.NullFree part :=
    nullFree_of_mem_splitAt free member
  rw [ofLine] at reads
  split at reads
  case h_1 fields | h_2 fields | h_4 fields =>
    obtain rfl := Except.ok.inj reads
    simp only [fields] at field
    simp [NullFree, field]
  case h_3 | h_5 => contradiction
  case h_6 first second rest fields _ _ _ =>
    obtain rfl := Except.ok.inj reads
    have last : (second :: rest).getLastD second ∈ second :: rest := by
      rw [List.getLastD_eq_getLast?, List.getLast?_eq_some_getLast (List.cons_ne_nil second rest)]
      exact List.getLast_mem _
    rw [fields] at field
    simpa [NullFree] using field (.tail _ last)
  case h_7 =>
    obtain rfl := Except.ok.inj reads
    simp

theorem nullFree_ofLines {lines : List String} {listed : List Listed} (free : ∀ line ∈ lines, Git.NullFree line)
    (reads : ofLines lines = .ok listed) : ∀ l ∈ listed, l.NullFree := by
  induction lines generalizing listed with
  | nil =>
    obtain rfl := Except.ok.inj reads
    simp
  | cons line lines ih =>
    obtain ⟨here, later⟩ := List.forall_mem_cons.mp free
    rw [ofLines] at reads
    split at reads
    next => exact ih later reads
    next =>
      cases entries : ofLine line with
      | error fault =>
        rw [entries] at reads
        contradiction
      | ok entry =>
        cases others : ofLines lines with
        | error fault =>
          rw [entries, others] at reads
          contradiction
        | ok rest =>
          rw [entries, others] at reads
          obtain rfl := Except.ok.inj reads
          refine List.forall_mem_append.mpr ⟨?_, ih later others⟩
          simpa using nullFree_ofLine here entries

/-- Where git lists no null character, no listed path has one. -/
theorem nullFree_of_mem_ofText {listing : String} {listed : List Listed} (free : Git.NullFree listing)
    (reads : ofText listing = .ok listed) : ∀ l ∈ listed, l.NullFree := by
  rw [ofText] at reads
  exact nullFree_ofLines (fun line member => nullFree_of_mem_splitAt (nullFree_trim free) member) reads

end Listed
end ChangeLens
