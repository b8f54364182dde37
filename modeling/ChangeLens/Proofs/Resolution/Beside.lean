import ChangeLens.Proofs.Import.Scanning
import ChangeLens.Proofs.Path.Here
import ChangeLens.Proofs.Resolution.Relative
import Mathlib.Data.Option.Basic

/-! Lines that load a file by its path from the file they stand in. From the text of such a line to the file the way
is that of the path alone, however it goes up and down, unless its first name is hidden. Such a path is taken for one
that begins with `.` or `..` already and so is not marked as relative; then it leads nowhere. -/
namespace ChangeLens.Resolution

open Text ChangeLens.Path ChangeLens.Import

variable {tracked : List String} {f g r : String}

def firstName (path : String) : String := .ofList (path.toList.takeWhile (· != '/'))

/-- A path that begins with a hidden name, such as `.config/a.h`. The names `.` and `..` are not hidden. -/
def BeginsHidden (path : String) : Prop :=
  (firstName path).toList.head? = some '.' ∧ firstName path ≠ "." ∧ firstName path ≠ ".."

instance (path : String) : Decidable (BeginsHidden path) := inferInstanceAs (Decidable (_ ∧ _ ∧ _))

theorem isRelative_iff (path : String) :
    isRelative path = true ↔ firstName path = "." ∨ firstName path = ".." := by
  constructor
  · simp only [isRelative, Bool.or_eq_true, startsWith_iff, beq_iff_eq]
    rintro (((⟨rest, split⟩ | ⟨rest, split⟩) | rfl) | rfl)
    · exact .inl (by simp [firstName, ← split])
    · exact .inr (by simp [firstName, ← split])
    · exact .inl (by decide)
    · exact .inr (by decide)
  · intro first
    have whole : path.toList = (firstName path).toList ++ path.toList.dropWhile (· != '/') := by simp [firstName]
    -- Behind the first name there is nothing or a slash.
    cases behind : path.toList.dropWhile (· != '/') with
    | nil =>
      rw [behind, List.append_nil] at whole
      have same : path = firstName path := String.toList_injective whole
      rcases first with here | above
      · simp [isRelative, same.trans here]
      · simp [isRelative, same.trans above]
    | cons c rest =>
      have slash : c = '/' := by
        have stops := List.head?_dropWhile_not (· != '/') path.toList
        simpa [behind] using stops
      subst slash
      rw [behind] at whole
      rcases first with here | above
      · have starts : startsWith "./" path = true := startsWith_iff.mpr ⟨rest, by simp [whole, here]⟩
        simp [isRelative, starts]
      · have starts : startsWith "../" path = true := startsWith_iff.mpr ⟨rest, by simp [whole, above]⟩
        simp [isRelative, starts]

theorem head?_firstName (path : String) : (firstName path).toList.head? = some '.' ↔ path.toList.head? = some '.' := by
  unfold firstName
  cases path.toList with
  | nil => simp
  | cons c cs =>
    by_cases slash : c = '/'
    · subst slash
      simp
    · simp [slash]

theorem beginsHidden_iff (path : String) :
    BeginsHidden path ↔ path.toList.head? = some '.' ∧ isRelative path = false := by
  rw [BeginsHidden, head?_firstName, ← Bool.not_eq_true, isRelative_iff, not_or]

theorem besideFile_of_dot (dot : r.toList.head? = some '.') : besideFile r.toList = r := by
  rw [besideFile, if_pos dot, String.ofList_toList]

theorem besideFile_of_ne_dot (other : r.toList.head? ≠ some '.') : besideFile r.toList = "./" ++ r := by
  rw [besideFile, if_neg other]
  apply String.toList_injective
  simp

theorem joined?_here (unrooted : startsWith "/" r = false) : joined? ("./" ++ r) f = joined? r f := by
  simp only [joined?, normalize_join_here unrooted]

/-- The path that is read leads where the path that was written leads. -/
theorem paths_besideFile {family : String} (known : familyOf family f ∈ ["ecmascript", "ruby", "c"])
    (unrooted : startsWith "/" r = false) (visible : ¬BeginsHidden r) (inside : joined? r f = some g) :
    paths (besideFile r.toList) f family =
      (expansions g (familyOf family f)).map fun p => .ofList (p.toList.dropWhile (· == '/')) := by
  by_cases dot : r.toList.head? = some '.'
  · have marked : isRelative r = true := by
      by_contra unmarked
      exact visible ((beginsHidden_iff r).mpr ⟨dot, Bool.eq_false_iff.mpr unmarked⟩)
    rw [besideFile_of_dot dot]
    exact paths_of_joined? known marked inside
  · have marked : isRelative ("./" ++ r) = true := by
      have starts : startsWith "./" ("./" ++ r) = true := startsWith_iff.mpr (by simp)
      simp [isRelative, starts]
    rw [besideFile_of_ne_dot dot]
    exact paths_of_joined? known marked ((joined?_here unrooted).trans inside)

theorem paths_besideFile_hidden {family : String} (known : familyOf family f ∈ ["ecmascript", "ruby", "c"])
    (hidden : BeginsHidden r) : paths (besideFile r.toList) f family = [] := by
  obtain ⟨dot, unmarked⟩ := (beginsHidden_iff r).mp hidden
  simp [paths, besideFile_of_dot dot, unmarked, beq_python_of_mem known]

/-- A path that can stand in either quotes on one line. -/
structure Quotable where
  chars : List Char
  nonempty : chars ≠ []
  inside : ∀ c ∈ chars, (c != '\'' && c != '"' && c != '\n') = true

/-- The lines that load a file from beside their own. -/
inductive LoadLine where
  /-- `#include "a/b.h"` -/
  | includes
  /-- `require_relative 'a/b'` -/
  | requires

namespace LoadLine

def family : LoadLine → String
  | includes => "c"
  | requires => "ruby"

def scanner : LoadLine → Scanner Import
  | includes => includeLine
  | requires => requireLine

def opening : LoadLine → List Char
  | includes => ['#', 'i', 'n', 'c', 'l', 'u', 'd', 'e', ' ']
  | requires => ['r', 'e', 'q', 'u', 'i', 'r', 'e', '_', 'r', 'e', 'l', 'a', 't', 'i', 'v', 'e', ' ']

def quote : LoadLine → Char
  | includes => '"'
  | requires => '\''

def chars (w : LoadLine) (path : List Char) : List Char := w.opening ++ (w.quote :: (path ++ [w.quote]))

/-- The file that a line means by a path joined to `path`: it may leave out one extension, or none. -/
def target (w : LoadLine) (path : String) : String :=
  match w with
  | includes => path
  | requires => if (splitExtension path).2 = ".rb" then path else path ++ ".rb"

theorem includeLine_chars (p : Quotable) {before : Option Char} (start : atLineStart before = true)
    (tail : List Char) :
    includeLine before (includes.chars p.chars ++ tail) = some (⟨besideFile p.chars, []⟩, tail) := by
  have text : includes.chars p.chars ++ tail =
      '#' :: ("include".toList ++ (' ' :: '"' :: (p.chars ++ '"' :: tail))) := by
    simp [chars, opening, quote]
  have sign (cs : List Char) : after? ['#'] (('#' :: cs).dropWhile isIndent) = some cs := rfl
  have word (cs : List Char) : after? "include".toList (("include".toList ++ cs).dropWhile isIndent) = some cs := rfl
  have opens (cs : List Char) : after? ['"'] ((' ' :: '"' :: cs).dropWhile isIndent) = some cs := rfl
  have closes (cs : List Char) : after? ['"'] ('"' :: cs) = some cs := rfl
  have inside : ∀ c ∈ p.chars, (c != '"' && c != '\n') = true := by
    intro c member
    have plain := p.inside c member
    simp only [Bool.and_eq_true] at plain ⊢
    exact ⟨plain.1.2, plain.2⟩
  have stops : ∀ c ∈ ('"' :: tail).head?, (c != '"' && c != '\n') = false := by simp
  have nonempty : (!p.chars.isEmpty) = true := by simp [p.nonempty]
  rw [text]
  simp only [includeLine, start, guard_true, sign, word, opens, takeWhile_append_of_stop inside stops,
    dropWhile_append_of_stop inside stops, closes, nonempty, Option.bind_eq_bind, Option.bind_some, Option.pure_def]

theorem requireLine_chars (p : Quotable) {before : Option Char} (start : atLineStart before = true)
    (tail : List Char) :
    requireLine before (requires.chars p.chars ++ tail) = some (⟨besideFile p.chars, []⟩, tail) := by
  have text : requires.chars p.chars ++ tail =
      "require_relative".toList ++ (' ' :: '\'' :: (p.chars ++ '\'' :: tail)) := by
    simp [chars, opening, quote]
  have unindented (cs : List Char) : ("require_relative".toList ++ cs).dropWhile isIndent =
      "require_relative".toList ++ cs := rfl
  have beside (cs : List Char) :
      (after? "require_relative".toList ("require_relative".toList ++ cs)).isSome = true := rfl
  have word (cs : List Char) :
      afterAny? ["require_relative", "require"] ("require_relative".toList ++ cs) = some cs := rfl
  have opens (cs : List Char) : (' ' :: '\'' :: cs).dropWhile (fun c => isIndent c || c == '(') = '\'' :: cs := rfl
  have quoted : quotedSpecifier? ('\'' :: (p.chars ++ '\'' :: tail)) = some (p.chars, tail) :=
    quotedSpecifier?_quoted (.inl rfl) p.nonempty p.inside tail
  rw [text]
  simp only [requireLine, start, guard_true, unindented, beside, word, opens, quoted, Option.bind_eq_bind,
    Option.bind_some, Option.pure_def, if_true]

theorem scanner_chars (w : LoadLine) (p : Quotable) {before : Option Char} (start : atLineStart before = true)
    (tail : List Char) : w.scanner before (w.chars p.chars ++ tail) = some (⟨besideFile p.chars, []⟩, tail) := by
  cases w with
  | includes => exact includeLine_chars p start tail
  | requires => exact requireLine_chars p start tail

theorem finds_chars (w : LoadLine) (p : Quotable) :
    Finds w.scanner (w.chars p.chars) [(0, ⟨besideFile p.chars, []⟩)] := by
  apply finds_all
  · cases w <;> exact List.cons_ne_nil _ _
  · intro before tail start _
    exact w.scanner_chars p start tail

theorem scanner_newline (w : LoadLine) (before : Option Char) (rest : List Char) :
    w.scanner before ('\n' :: rest) = none := by
  cases w with
  | includes => simp [scanner, includeLine, isIndent, after?]
  | requires => simp [scanner, requireLine, isIndent, after?, afterAny?]

/-- In a file of such lines each one is found, with its path as it is read. -/
theorem ofText_lines (w : LoadLine) (ended : Bool) (ps : List Quotable) :
    ofText w.family (.ofList (written (fun p => w.chars p.chars) ended ps)) =
      ps.map fun p => ⟨besideFile p.chars, []⟩ := by
  have one (p : Quotable) : [()].flatMap (fun _ => [(0, (⟨besideFile p.chars, []⟩ : Import))]) =
      [(0, ⟨besideFile p.chars, []⟩)] := List.flatMap_singleton ..
  have ordered := inOrder_written (fun _ : Unit => w.scanner_newline) (fun _ => w.finds_chars) one
    (fun _ => Nat.zero_le _) ended ps
  rw [List.flatMap_singleton] at ordered
  cases w <;> exact ordered

theorem target_ne_slash (w : LoadLine) (unrooted : g.toList.head? ≠ some '/') :
    (w.target g).toList.head? ≠ some '/' := by
  cases w with
  | includes => exact unrooted
  | requires =>
    unfold target
    dsimp only
    split
    next => exact unrooted
    next =>
      by_cases root : g = ""
      · subst root
        decide
      · exact head?_append_ne_slash unrooted root ".rb"

theorem expansions_family (w : LoadLine) (g : String) : expansions g w.family = [w.target g] := by
  cases w with
  | includes => exact expansions_c g
  | requires => simp [family, expansions_ruby, target]

/-- The path that is read from a line leads to just one file, or to none if its first name is hidden. -/
theorem path?_besideFile (w : LoadLine) (read : familyOf "" f = w.family) (unrooted : startsWith "/" r = false)
    (inside : joined? r f = some g) : path? tracked (besideFile r.toList) f "" =
      if w.target g ∈ tracked ∧ ¬BeginsHidden r then some (w.target g) else none := by
  have known : familyOf "" f ∈ ["ecmascript", "ruby", "c"] := by
    rw [read]
    cases w <;> decide
  by_cases hidden : BeginsHidden r
  · rw [path?, paths_besideFile_hidden known hidden]
    simp [hidden]
  · have kept : String.ofList ((w.target g).toList.dropWhile (· == '/')) = w.target g :=
      dropWhile_slash_eq_self (w.target_ne_slash (head?_ne_slash_of_joined? inside))
    rw [path?, paths_besideFile known unrooted hidden inside, read, w.expansions_family, List.map_singleton, kept]
    by_cases found : w.target g ∈ tracked <;> simp [found, hidden]

def line (w : LoadLine) (path : String) : String := .ofList (w.chars path.toList)

/-- Scanning a line that loads a path within the repository gives one import, and that leads to the file at the path as
seen from the directory of the line's file, if it is tracked and the path does not begin with a hidden name. -/
theorem line_leads_beside (w : LoadLine) (read : familyOf "" f = w.family) (solid : r ≠ "")
    (plain : ∀ c ∈ r.toList, c ≠ '\'' ∧ c ≠ '"' ∧ c ≠ '\n') (unrooted : startsWith "/" r = false)
    (inside : joined? r f = some g) (ended : Bool) :
    ∃ i, ofText (familyOf "" f) (w.line r ++ if ended then "\n" else "") = [i] ∧
      path? tracked i.specifier f "" =
        if w.target g ∈ tracked ∧ ¬BeginsHidden r then some (w.target g) else none := by
  let p : Quotable := {
    chars := r.toList
    nonempty := mt String.toList_eq_nil_iff.mp solid
    inside := by simpa [and_assoc] using plain }
  have text : w.line r ++ (if ended then "\n" else "") = .ofList (written (fun p => w.chars p.chars) ended [p]) := by
    apply String.toList_injective
    cases ended <;> simp [line, written, written.after, p]
  refine ⟨⟨besideFile r.toList, []⟩, ?_, w.path?_besideFile read unrooted inside⟩
  rw [text, read, w.ofText_lines]
  rfl

/-- A header beside the including file, by way of the directory above. -/
theorem line_leads_beside_header :
    let tracked := ["src/lib/util.h", "src/main.c"]
    (familyOf "" "src/app/main.c" = includes.family ∧
      joined? "../lib/./util.h" "src/app/main.c" = some "src/lib/util.h" ∧
      "src/lib/util.h" ∈ tracked ∧ ¬BeginsHidden "../lib/./util.h") ∧
      ∃ i, ofText "c" "#include \"../lib/./util.h\"\n" = [i] ∧
        path? tracked i.specifier "src/app/main.c" "" = some "src/lib/util.h" := by
  intro tracked
  have read : familyOf "" "src/app/main.c" = includes.family := by decide
  have inside : joined? "../lib/./util.h" "src/app/main.c" = some "src/lib/util.h" := by decide
  have known : includes.target "src/lib/util.h" ∈ tracked ∧ ¬BeginsHidden "../lib/./util.h" := by decide
  obtain ⟨i, found, leads⟩ := @line_leads_beside tracked _ _ _ includes read (by decide) (by simp) (by decide) inside
    true
  have text : includes.line "../lib/./util.h" ++ "\n" = "#include \"../lib/./util.h\"\n" := by decide
  refine ⟨⟨read, inside, known⟩, i, ?_, ?_⟩
  · rw [if_pos rfl, text, read] at found
    exact found
  · rw [leads, if_pos known]
    rfl

/-- A file of a hidden name is not found beside the including file. -/
theorem hidden_unresolved :
    joined? ".config.h" "src/main.c" = some "src/.config.h" ∧
      ofText "c" "#include \".config.h\"" = [⟨".config.h", []⟩] ∧
      path? ["src/.config.h"] ".config.h" "src/main.c" "" = none := by
  have scanned := includes.ofText_lines false [⟨".config.h".toList, by decide, List.all_eq_true.mp rfl⟩]
  have inside : joined? ".config.h" "src/main.c" = some "src/.config.h" := by decide
  have leads := @path?_besideFile ["src/.config.h"] _ _ _ includes (by decide) (by decide) inside
  exact ⟨inside, scanned, leads⟩

end LoadLine

end ChangeLens.Resolution
