import ChangeLens.Proofs.Patch.Sections

/-! The lines that a file's hunks add, numbered on the new side. The walk over the hunks keeps the number of the
next new line, whatever the lines hold; only the number in a header can be too long to be read. -/
namespace ChangeLens.Patch

open Text

theorem takeDigits?_append (n : Numeral) {c : Char} (stop : isDigit c = false) (rest : List Char) :
    takeDigits? (n.digits ++ c :: rest) = some (n.digits, c :: rest) := by
  have digits := n.areDigits
  simp [takeDigits?, List.takeWhile_append_of_pos digits, List.dropWhile_append_of_pos digits, stop,
    n.nonempty]

theorem takeDigits?_writtenRange (start : Numeral) (count : Option Numeral) (rest : List Char) :
    ∃ tail, takeDigits? (writtenRange start count ++ ' ' :: rest) = some (start.digits, tail) ∧
      skipCount tail = ' ' :: rest := by
  cases count with
  | none => exact ⟨_, takeDigits?_append start (by decide) rest, rfl⟩
  | some count =>
    refine ⟨',' :: (count.digits ++ ' ' :: rest), ?_, ?_⟩
    · rw [writtenRange, List.append_assoc]
      exact takeDigits?_append start (by decide) _
    · rw [skipCount, takeDigits?_append count (by decide)]
      rfl

theorem Hunk.hunkStart?_header (h : Hunk) : hunkStart? h.header = some h.newStart.digits := by
  obtain ⟨old, readOld, skipOld⟩ := takeDigits?_writtenRange h.oldStart h.oldCount
    ('+' :: (writtenRange h.newStart h.newCount ++ ([' ', '@', '@'] ++ h.heading.val)))
  obtain ⟨new, readNew, skipNew⟩ := takeDigits?_writtenRange h.newStart h.newCount
    ('@' :: '@' :: h.heading.val)
  simp only [List.cons_append, List.nil_append] at readOld readNew skipOld
  simp [hunkStart?, header, readOld, skipOld, readNew, skipNew, after?]

theorem BodyLine.hunkStart?_line (l : BodyLine) : hunkStart? l.line = none := by
  cases l <;> simp [hunkStart?, line, after?]

/-- The numbers of the added lines of a body whose next new line has the number `n`. -/
def numbers : Nat → List BodyLine → List Nat
  | _, [] => []
  | n, .added _ :: ls => n :: numbers (n + 1) ls
  | n, .context _ :: ls => numbers (n + 1) ls
  | n, .removed _ :: ls => numbers n ls
  | n, .note _ :: ls => numbers n ls

/-- What a line of a body does to the walk once a header was seen. -/
def Walk.along (w : Walk) : BodyLine → Walk
  | .context _ => { w with current := w.current + 1 }
  | .added _ => ⟨w.current + 1, w.current :: w.added⟩
  | .removed _ | .note _ => w

theorem pass_line {w : Walk} {l : BodyLine} (started : l.onNewSide = true → 1 ≤ w.current) :
    w.pass l.line = .ok (w.along l) := by
  rw [Walk.pass, l.hunkStart?_line]
  cases l with
  | context text =>
    have : w.current ≠ 0 := Nat.one_le_iff_ne_zero.mp (started rfl)
    simp [Walk.over, BodyLine.line, Walk.along, this]
  | added text =>
    have : w.current ≠ 0 := Nat.one_le_iff_ne_zero.mp (started rfl)
    simp [Walk.over, BodyLine.line, Walk.along, this]
  | removed text => simp [Walk.over, BodyLine.line, Walk.along]
  | note text => simp [Walk.over, BodyLine.line, Walk.along]

theorem foldlM_body (body : List BodyLine) (w : Walk)
    (starts : (∃ l ∈ body, l.onNewSide = true) → 1 ≤ w.current) : ∃ current,
    (body.map BodyLine.line).foldlM Walk.pass w = .ok ⟨current, (numbers w.current body).reverse ++ w.added⟩ := by
  induction body generalizing w with
  | nil => exact ⟨w.current, rfl⟩
  | cons l body ih =>
    -- The walk takes zero to mean that no header was seen, so a line of the new side must find more than that.
    have step : w.pass l.line = .ok (w.along l) := pass_line fun new => starts ⟨l, .head _, new⟩
    have still : (∃ k ∈ body, k.onNewSide = true) → 1 ≤ (w.along l).current := by
      rintro ⟨k, member, new⟩
      have here := starts ⟨k, .tail _ member, new⟩
      cases l with
      | context | added => exact Nat.le_add_left ..
      | removed | note => exact here
    obtain ⟨current, rest⟩ := ih (w.along l) still
    rw [List.map_cons, List.foldlM_cons, step]
    refine ⟨current, ?_⟩
    change (body.map BodyLine.line).foldlM Walk.pass (w.along l) = _
    rw [rest]
    cases l <;> simp [Walk.along, numbers]

theorem added_at_cons (l : BodyLine) (ls : List BodyLine) (n m : Nat) :
    (∃ i text, (l :: ls)[i]? = some (.added text) ∧ m = n + i) ↔
      (∃ text, l = .added text ∧ m = n) ∨ ∃ i text, ls[i]? = some (.added text) ∧ m = n + 1 + i := by
  constructor
  · rintro ⟨i, text, found, rfl⟩
    cases i with
    | zero => exact .inl ⟨text, by simpa using found, rfl⟩
    | succ i => exact .inr ⟨i, text, by simpa using found, by omega⟩
  · rintro (⟨text, rfl, rfl⟩ | ⟨i, text, found, rfl⟩)
    · exact ⟨0, text, rfl, rfl⟩
    · exact ⟨i + 1, text, by simpa using found, by omega⟩

/-- The walk collects the lines of the new side that are added, each by its place there. -/
theorem mem_numbers (n m : Nat) (body : List BodyLine) : m ∈ numbers n body ↔
    ∃ i text, (body.filter BodyLine.onNewSide)[i]? = some (.added text) ∧ m = n + i := by
  induction body generalizing n with
  | nil => simp [numbers]
  | cons l body ih =>
    cases l with
    | context text =>
      rw [List.filter_cons_of_pos rfl, added_at_cons, ← ih (n + 1)]
      simp [numbers]
    | added text =>
      rw [List.filter_cons_of_pos rfl, added_at_cons, ← ih (n + 1)]
      simp [numbers]
    | removed text =>
      rw [List.filter_cons_of_neg (by simp [BodyLine.onNewSide])]
      exact ih n
    | note text =>
      rw [List.filter_cons_of_neg (by simp [BodyLine.onNewSide])]
      exact ih n

namespace Hunk

/-- Whether the number in the header is short enough to be read. -/
def Short (h : Hunk) : Prop := h.newStart.digits.length ≤ maxDigits

def added (h : Hunk) : List Nat := numbers h.newStart.value h.body

theorem foldlM_lines {h : Hunk} (short : h.Short) (w : Walk) : ∃ current,
    h.lines.foldlM Walk.pass w = .ok ⟨current, h.added.reverse ++ w.added⟩ := by
  have start : w.pass h.header = .ok { w with current := h.newStart.value } := by
    rw [Walk.pass, h.hunkStart?_header]
    simp [readDigits, Nat.not_lt.mpr short, Except.map, Numeral.value]
  rw [lines, List.foldlM_cons, start]
  exact foldlM_body h.body ⟨h.newStart.value, w.added⟩ h.starts

theorem foldlM_lines_long {h : Hunk} (long : ¬h.Short) (w : Walk) :
    h.lines.foldlM Walk.pass w = .error ⟨h.newStart.digits.length⟩ := by
  have start : w.pass h.header = .error ⟨h.newStart.digits.length⟩ := by
    rw [Walk.pass, h.hunkStart?_header]
    simp [readDigits, Nat.not_le.mp long, Except.map]
  rw [lines, List.foldlM_cons, start]
  rfl

/-- Whether the hunk adds the line `n`: it begins at its number and counts the lines of the new side. -/
def Adds (h : Hunk) (n : Nat) : Prop :=
  ∃ i text, (h.body.filter BodyLine.onNewSide)[i]? = some (.added text) ∧ n = h.newStart.value + i

theorem mem_added {h : Hunk} {n : Nat} : n ∈ h.added ↔ h.Adds n := mem_numbers _ _ _

end Hunk

theorem foldlM_hunks {hs : List Hunk} (short : ∀ h ∈ hs, h.Short) (w : Walk) : ∃ current,
    (hs.flatMap Hunk.lines).foldlM Walk.pass w =
      .ok ⟨current, (hs.flatMap Hunk.added).reverse ++ w.added⟩ := by
  induction hs generalizing w with
  | nil => exact ⟨w.current, rfl⟩
  | cons h hs ih =>
    obtain ⟨middle, first⟩ := Hunk.foldlM_lines (short h (.head _)) w
    obtain ⟨current, rest⟩ := ih (fun k member => short k (.tail _ member)) ⟨middle, h.added.reverse ++ w.added⟩
    refine ⟨current, ?_⟩
    rw [List.flatMap_cons, List.foldlM_append, first]
    change (hs.flatMap Hunk.lines).foldlM Walk.pass _ = _
    rw [rest]
    simp

/-- The empty line behind the last line feed adds nothing. -/
theorem foldlM_lastLine (w : Walk) (ended : Bool) : ∃ current,
    (lastLine ended).foldlM Walk.pass w = .ok ⟨current, w.added⟩ := by
  cases ended with
  | false => exact ⟨w.current, rfl⟩
  | true =>
    have empty : w.pass [] = .ok (w.over []) := by simp [Walk.pass, hunkStart?, after?]
    simp only [lastLine, if_true, List.foldlM_cons, List.foldlM_nil, empty]
    refine ⟨(w.over []).current, ?_⟩
    change Except.ok (w.over []) = _
    simp only [Walk.over]
    split <;> rfl

namespace FileSection

theorem splitOn_hunkText {s : FileSection} (nonempty : s.hunks ≠ []) (ended : Bool) :
    (s.hunkText ended).splitOn '\n' = s.hunkLines ++ lastLine ended := by
  rw [hunkText, if_neg nonempty]
  refine splitOn_written (fun l member => ?_) ?_ ended
  · obtain ⟨h, -, member⟩ := List.mem_flatMap.mp member
    exact h.newline_notMem member
  · obtain ⟨h, hs, equal⟩ := List.exists_cons_of_ne_nil nonempty
    simp [hunkLines, equal, Hunk.lines]

theorem changedLines_part {s : FileSection} (short : ∀ h ∈ s.hunks, h.Short) (ended : Bool) :
    changedLines (s.part ended).hunks = .ok (sortDistinct (· ≤ ·) (s.hunks.flatMap Hunk.added).reverse) := by
  rw [changedLines, part, String.toList_ofList]
  by_cases none : s.hunks = []
  · obtain ⟨current, walked⟩ := foldlM_lastLine {} true
    simp only [hunkText, none, if_true, List.splitOn_nil]
    change (do let w ← (lastLine true).foldlM Walk.pass {}; return _) = _
    rw [walked]
    rfl
  · obtain ⟨middle, hunks⟩ := foldlM_hunks short {}
    obtain ⟨current, last⟩ := foldlM_lastLine ⟨middle, (s.hunks.flatMap Hunk.added).reverse ++ []⟩ ended
    rw [splitOn_hunkText none, hunkLines, List.foldlM_append, hunks]
    change (do let w ← (lastLine ended).foldlM Walk.pass _; return _) = _
    rw [last, List.append_nil]
    rfl

/-- The first number that is too long ends the reading. -/
theorem changedLines_part_long {s : FileSection} {earlier later : List Hunk} {h : Hunk}
    (equal : s.hunks = earlier ++ h :: later) (short : ∀ e ∈ earlier, e.Short) (long : ¬h.Short)
    (ended : Bool) : changedLines (s.part ended).hunks = .error ⟨h.newStart.digits.length⟩ := by
  obtain ⟨middle, before⟩ := foldlM_hunks short {}
  rw [changedLines, part, String.toList_ofList, splitOn_hunkText (by simp [equal]), hunkLines, equal,
    List.flatMap_append, List.flatMap_cons, List.append_assoc, List.append_assoc, List.foldlM_append, before]
  change (do let w ← (h.lines ++ _).foldlM Walk.pass _; return _) = _
  rw [List.foldlM_append, Hunk.foldlM_lines_long long]
  rfl

/-- The section's own lines from the first one on that begins as the header of a hunk does. -/
def fromFirstHeader (s : FileSection) (ended : Bool) : List (List Char) :=
  (s.lines ++ lastLine ended).dropWhile fun l => !(['@', '@'].isPrefixOf l)

theorem hunkText_eq (s : FileSection) (ended : Bool) :
    s.hunkText ended = ['\n'].intercalate (s.fromFirstHeader ended) := by
  have title : (!(['@', '@'].isPrefixOf (sectionMark ++ s.title))) = true := by
    rw [sectionMark_eq]
    rfl
  have lines := s.hunkLines_inner ended
  simp only [Patch.hunkLines, inner, List.cons_append, List.tail_cons, isNone_after?] at lines
  rw [fromFirstHeader, FileSection.lines, List.cons_append, List.dropWhile_cons, if_pos title, lines, hunkText]
  split <;> rfl

end FileSection

/-- What reading a patch gives for one of its sections: its text from the first hunk on, and from that the
lines that it adds, unless the number of a hunk has too many digits. -/
structure ReadsAs (s : FileSection) (ended : Bool) (p : FilePatch) : Prop where
  hunks : p.hunks = .ofList (['\n'].intercalate (s.fromFirstHeader ended))
  changed : (∀ h ∈ s.hunks, h.Short) → ∃ ls, changedLines p.hunks = .ok ls ∧ ls.Pairwise (· < ·) ∧
    ∀ n, n ∈ ls ↔ ∃ h ∈ s.hunks, h.Adds n
  refused : ∀ earlier h later, s.hunks = earlier ++ h :: later → (∀ e ∈ earlier, e.Short) → ¬h.Short →
    changedLines p.hunks = .error ⟨h.newStart.digits.length⟩

theorem part_readsAs (s : FileSection) (ended : Bool) : ReadsAs s ended (s.part ended) := by
  constructor
  · rw [← s.hunkText_eq]
    rfl
  · intro short
    refine ⟨_, FileSection.changedLines_part short ended, pairwise_sortDistinct _, fun n => ?_⟩
    simp [mem_sortDistinct, Hunk.mem_added]
  · intro earlier h later equal short long
    exact FileSection.changedLines_part_long equal short long ended

/-- A written patch reads back section by section, whatever its lines hold. -/
theorem byPath_written_readsAs {ss : List FileSection} (plain : ∀ s ∈ ss, s.Plain)
    (distinct : (ss.map FileSection.path).Nodup) (ended : Bool) :
    (byPath (written ss ended)).keys = ss.map FileSection.path ∧
      ∀ before s after, ss = before ++ s :: after → ∃ p,
        (byPath (written ss ended)).find? s.path = some p ∧ ReadsAs s (ended || !after.isEmpty) p := by
  refine ⟨keys_byPath plain distinct ended, ?_⟩
  rintro before s after rfl
  exact ⟨_, find?_byPath plain distinct ended, part_readsAs ..⟩

def one : Numeral where
  digits := ['1']
  nonempty := by simp
  areDigits d member := by
    rw [List.mem_singleton.mp member]
    decide

/-- A file whose lines look like titles and headers of other files. -/
def misleading : FileSection where
  old := ⟨['a', ' ', 'b'], by decide⟩
  new := ⟨['b'], by decide⟩
  old_nonempty := by decide
  new_nonempty := by decide
  extended := [⟨"+++ b/b".toList, by simp⟩]
  unmarked := by simp [sectionMark_eq]
  hunks := [{
    oldStart := one
    oldCount := none
    newStart := one
    newCount := some one
    heading := ⟨" @@ -7 +7 @@".toList, by simp⟩
    body := [.removed ⟨"- a".toList, by simp⟩, .context ⟨"diff --git a/c b/c".toList, by simp⟩,
      .added ⟨"@@ -1 +9 @@".toList, by simp⟩, .note ⟨" No newline at end of file".toList, by simp⟩]
    starts := fun _ => by decide }]

theorem byPath_written_readsAs_misleading :
    (∀ s ∈ [misleading], s.Plain) ∧ ([misleading].map FileSection.path).Nodup ∧
      ∃ p, (byPath (written [misleading] true)).find? "b" = some p ∧ ReadsAs misleading true p := by
  have plain : ∀ s ∈ [misleading], s.Plain := by
    intro s member
    rw [List.mem_singleton.mp member]
    change ¬[' ', 'b', '/'] <:+: ['a', ' ', 'b']
    decide
  have distinct : ([misleading].map FileSection.path).Nodup := by simp
  exact ⟨plain, distinct, (byPath_written_readsAs plain distinct true).2 [] misleading [] rfl⟩

def tooLong : Numeral where
  digits := '1' :: List.replicate maxDigits '0'
  nonempty := by simp
  areDigits d member := by
    rcases List.mem_cons.mp member with rfl | zero
    · decide
    · rw [List.eq_of_mem_replicate zero]
      decide

def nearHunk : Hunk where
  oldStart := one
  oldCount := none
  newStart := one
  newCount := none
  heading := ⟨[], by decide⟩
  body := [.added ⟨['x'], by decide⟩]
  starts := fun _ => by decide

def remoteHunk : Hunk where
  oldStart := one
  oldCount := none
  newStart := tooLong
  newCount := none
  heading := ⟨[], by decide⟩
  body := [.removed ⟨['y'], by decide⟩]
  starts := by simp [BodyLine.onNewSide]

theorem remoteHunk_long : ¬remoteHunk.Short := by
  have length : remoteHunk.newStart.digits.length = maxDigits + 1 := by
    simp [remoteHunk, tooLong]
  rw [Hunk.Short, length]
  omega

def remote : FileSection where
  old := ⟨['b'], by decide⟩
  new := ⟨['b'], by decide⟩
  old_nonempty := by decide
  new_nonempty := by decide
  extended := []
  unmarked := by simp
  hunks := [nearHunk, remoteHunk]

/-- The second hunk adds nothing, but it takes the line of the first one with it. -/
theorem changedLines_remote_refused : remote.Plain ∧ ([remote].map FileSection.path).Nodup ∧
    (∀ n, (∃ h ∈ remote.hunks, h.Adds n) ↔ n = 1) ∧
    ∃ p, (byPath (written [remote] true)).find? "b" = some p ∧
      changedLines p.hunks = .error ⟨maxDigits + 1⟩ := by
  have plain : ∀ s ∈ [remote], s.Plain := by
    intro s member
    rw [List.mem_singleton.mp member]
    have : ¬[' ', 'b', '/'] <:+: ['b'] := by decide
    exact this
  have distinct : ([remote].map FileSection.path).Nodup := by simp
  have near : nearHunk.Short := by
    have : 1 ≤ maxDigits := by decide
    exact this
  refine ⟨plain _ (.head _), distinct, fun n => ?_, remote.part true, ?_, ?_⟩
  · have nearAdded : nearHunk.added = [1] := by decide
    have remoteAdded : remoteHunk.added = [] := rfl
    simp [remote, ← Hunk.mem_added, nearAdded, remoteAdded]
  · exact @find?_byPath [] [] remote plain distinct true
  · have second : remote.hunks = [nearHunk] ++ remoteHunk :: [] := rfl
    rw [FileSection.changedLines_part_long second (by simpa using near) remoteHunk_long]
    simp [remoteHunk, tooLong]

end ChangeLens.Patch
