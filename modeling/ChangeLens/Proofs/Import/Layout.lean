import ChangeLens.Proofs.Import.Names
import ChangeLens.Proofs.Import.Scanning
import ChangeLens.Proofs.Syntax.Markup

/-! Lists of names and statements on lines of their own, as texts and as the trees of these texts. -/
namespace ChangeLens.Import

def listMarkup (item : Item → List Markup) (l : NameList) : List Markup :=
  [Markup.token ","].intercalate (l.items.map item ++ l.last.toList.map fun g => [.text g.chars])

theorem charsOf_listMarkup {item : Item → List Markup} (same : ∀ i, Markup.charsOf (item i) = i.chars) (l : NameList) :
    Markup.charsOf (listMarkup item l) = l.chars := by
  simp [listMarkup, Markup.charsOf_intercalate, NameList.chars, NameList.parts, same, Function.comp_def]

theorem flatMap_nodesOf_listMarkup {item : Item → List Markup} {read : Node → List β} {found : Item → List β}
    (quiet : ∀ line, ((Markup.token ",").nodes line).flatMap read = [])
    (each : ∀ line i, (Markup.nodesOf line (item i)).flatMap read = found i) (line : Nat) (l : NameList) :
    (Markup.nodesOf line (listMarkup item l)).flatMap read = l.items.flatMap found := by
  -- where a piece stands has no influence, so each may be read as on the first line
  have here : ∀ part ∈ l.items.map item ++ l.last.toList.map (fun g => [Markup.text g.chars]), ∀ line,
      (Markup.nodesOf line part).flatMap read = (Markup.nodesOf 1 part).flatMap read := by
    intro part member line
    rcases List.mem_append.mp member with member | member
    · obtain ⟨i, -, rfl⟩ := List.mem_map.mp member
      rw [each, each]
    · obtain ⟨g, -, rfl⟩ := List.mem_map.mp member
      simp
  rw [listMarkup, Markup.flatMap_nodesOf_intercalate (by simpa using quiet) here, List.flatMap_append]
  simp [List.flatMap_map, each]

/-- Reading some of the nodes, as reading all of them one by one. -/
theorem filterMap_filter_eq_flatMap (chosen : Node → Bool) (read : Node → Option β) (nodes : List Node) :
    (nodes.filter chosen).filterMap read = nodes.flatMap fun n => if chosen n then (read n).toList else [] := by
  induction nodes with
  | nil => rfl
  | cons n nodes ih =>
    by_cases here : chosen n = true
    · cases found : read n <;> simp [here, found, ih]
    · simp [here, ih]

variable {σ : Type} (markup : σ → Markup)

def laidOut.after (ended : Bool) : List σ → List Markup
  | [] => if ended then [.text ['\n']] else []
  | x :: xs => .text ['\n'] :: markup x :: after ended xs

/-- The statements with a line feed between any two. The last line may lack its end. -/
def laidOut (ended : Bool) : List σ → List Markup
  | [] => []
  | x :: xs => markup x :: laidOut.after markup ended xs

def treeOf (type : String) (ended : Bool) (xs : List σ) : Node := Markup.root type (laidOut markup ended xs)

variable {markup} {chars : σ → List Char}

theorem charsOf_after (same : ∀ x, (markup x).chars = chars x) (ended : Bool) (xs : List σ) :
    Markup.charsOf (laidOut.after markup ended xs) = written.after chars ended xs := by
  induction xs with
  | nil => cases ended <;> simp [laidOut.after, written.after]
  | cons x xs ih => simp [laidOut.after, written.after, same, ih]

theorem text_treeOf (same : ∀ x, (markup x).chars = chars x) (type : String) (ended : Bool) (xs : List σ) :
    (treeOf markup type ended xs).text = .ofList (written chars ended xs) := by
  cases xs with
  | nil => simp [treeOf, Markup.root, laidOut, written]
  | cons x xs => simp [treeOf, Markup.root, laidOut, written, same, charsOf_after same]

variable {read : Node → List β} {found : σ → List β}

theorem flatMap_nodesOf_after (each : ∀ line x, ((markup x).nodes line).flatMap read = found x) (ended : Bool)
    (line : Nat) (xs : List σ) :
    (Markup.nodesOf line (laidOut.after markup ended xs)).flatMap read = xs.flatMap found := by
  induction xs generalizing line with
  | nil => cases ended <;> simp [laidOut.after]
  | cons x xs ih => simp [laidOut.after, each, ih]

/-- What is read from the statements of a file does not depend on the lines on which they stand. -/
theorem flatMap_children_treeOf (each : ∀ line x, ((markup x).nodes line).flatMap read = found x) (type : String)
    (ended : Bool) (xs : List σ) : (treeOf markup type ended xs).children.flatMap read = xs.flatMap found := by
  cases xs with
  | nil => simp [treeOf, Markup.root, laidOut]
  | cons x xs => simp [treeOf, Markup.root, laidOut, each, flatMap_nodesOf_after each]

end ChangeLens.Import
