import ChangeLens.Proofs.Config.Fieldwise
import ChangeLens.Toml.Printer
import Mathlib.Data.List.Forall2

/-! Setting one of the stored settings. A call that fails leaves all that is stored as it was, and one that succeeds
replaces the table of settings and nothing else of what was read. This rests on the format and the medium: a table that
is written reads back as the same data, and a write that fails has written nothing. What was not read is lost. -/
namespace ChangeLens.Config

namespace Value

/-- Whether two values hold the same data. The entries of a table are in no order. -/
inductive Same : Value → Value → Prop where
  | refl (v : Value) : Same v v
  | list {xs ys : List Value} : List.Forall₂ Same xs ys → Same (.list xs) (.list ys)
  | table {xs ys : Table} : (∀ key, Option.Rel Same (xs.lookup key) (ys.lookup key)) → Same (.table xs) (.table ys)

theorem Same.eq_whole {n : Int} {v : Value} (same : Same (.whole n) v) : v = .whole n := by
  cases same
  rfl

theorem Same.lookup {xs ys : Table} (same : Same (.table xs) (.table ys)) (key : String) :
    Option.Rel Same (xs.lookup key) (ys.lookup key) := by
  cases same with
  | refl =>
    cases xs.lookup key with
    | none => exact .none
    | some v => exact .some (.refl v)
  | table entries => exact entries key

theorem Same.exists_table {xs : Table} {v : Value} (same : Same (.table xs) v) : ∃ ys, v = .table ys := by
  cases same with
  | refl => exact ⟨xs, rfl⟩
  | table => exact ⟨_, rfl⟩

end Value

namespace Settings

/-- The values of the settings with one of them set over the stored entries, and those over the defaults. -/
def overlaid (entries : Table) (key : Key) (n : Int) (k : Key) : Value :=
  if k = key then .whole n else (entries.lookup k.word).getD (.whole (get {} k))

/-- The settings that come of a document when the one under a word is set from a text. -/
structure Accepted (document : Table) (word text : String) (s : Settings) : Prop where
  overlays : ∃ entries key n, section? document = .ok entries ∧ key.word = word ∧ Text.readInt? text = some n ∧
    ∀ k, overlaid entries key n k = .whole (s.get k)
  inRange : ∀ k : Key, k.least ≤ s.get k

variable {document entries : Table} {word text : String} {s : Settings}

theorem least_le_default (k : Key) : k.least ≤ get {} k := by
  cases k <;> decide

theorem check_eq_ok_iff {k : Key} {v? : Option Value} {n : Nat} :
    check k v? = .ok n ↔ v?.getD (.whole (get {} k)) = .whole n ∧ k.least ≤ n := by
  cases v? with
  | none =>
    rw [check, Option.getD_none, Value.whole.injEq, Except.ok.injEq, Int.natCast_inj]
    exact ⟨fun same => ⟨same, same ▸ least_le_default k⟩, fun both => both.1⟩
  | some v =>
    rw [Option.getD_some]
    cases v with
    | whole value =>
      rw [check, Value.whole.injEq]
      split
      next low => exact iff_of_false (by simp) (by omega)
      next high =>
        rw [Except.ok.injEq]
        omega
    | nothing | truth | decimal | notANumber | moment | text | unpaired | list | table => simp [check]

theorem updated_eq_ok_iff : updated document word text = .ok s ↔ Accepted document word text s := by
  have value (entries : Table) (key : Key) (n : Int) (k : Key) :
      (if k = key then some (.whole n) else entries.lookup k.word).getD (.whole (get {} k)) = overlaid entries key n k := by
    rw [overlaid]
    split <;> rfl
  constructor
  · intro made
    obtain ⟨entries, holds, made⟩ := exists_ok_of_bind made
    split at made
    next => contradiction
    next key known =>
      split at made
      next => contradiction
      next n reads =>
        have checked (k : Key) := check_eq_ok_iff.mp (check_of_ofValues made k)
        simp only [value] at checked
        exact ⟨⟨entries, key, n, holds, by simpa using List.find?_some known, reads, fun k => (checked k).1⟩,
          fun k => (checked k).2⟩
  · rintro ⟨⟨entries, key, n, holds, rfl, reads, overlays⟩, inRange⟩
    have checked (k : Key) :
        check k (if k = key then some (.whole n) else entries.lookup k.word) = .ok (s.get k) :=
      check_eq_ok_iff.mpr ⟨(value entries key n k).trans (overlays k), inRange k⟩
    rw [updated, holds]
    simp only [Key.ofWord?_word, reads]
    exact ofValues_of_ok checked

/-- The settings as a table have the six entries of the keys and no others. -/
theorem lookup_toTable (s : Settings) (word : String) :
    s.toTable.lookup word = (Key.ofWord? word).map fun k => .whole (s.get k) := by
  rw [toTable, Key.ofWord?]
  induction Key.all with
  | nil => rfl
  | cons k keys ih =>
    rw [List.map_cons, List.lookup_cons, List.find?_cons, ih, Bool.beq_comm]
    cases k.word == word <;> rfl

def replaced (document : Table) (s : Settings) : Table :=
  ((⟨document⟩ : Keyed Value).put tableName (.table s.toTable)).entries

theorem lookup_replaced (document : Table) (s : Settings) (name : String) :
    (replaced document s).lookup name = if name = tableName then some (.table s.toTable) else document.lookup name :=
  Keyed.find?_put ..

/-- What is stored instead of a document: its table of settings is six entries now, and the others are as they were. -/
structure Replaces (document : Table) (s : Settings) (again : Table) : Prop where
  settings : ∃ entries, again.lookup tableName = some (.table entries) ∧
    ∀ word, entries.lookup word = (Key.ofWord? word).map fun k => .whole (s.get k)
  others : ∀ name, name ≠ tableName → Option.Rel Value.Same (document.lookup name) (again.lookup name)

variable {again : Table}

theorem replaces_of_same (same : Value.Same (.table (replaced document s)) (.table again)) :
    Replaces document s again := by
  constructor
  · have table := same.lookup tableName
    rw [lookup_replaced, if_pos rfl] at table
    generalize again.lookup tableName = found at table
    cases table with
    | some alike =>
      obtain ⟨entries, rfl⟩ := alike.exists_table
      refine ⟨entries, rfl, fun word => ?_⟩
      have entry := alike.lookup word
      rw [lookup_toTable] at entry
      generalize entries.lookup word = value at entry ⊢
      cases known : Key.ofWord? word with
      | none =>
        rw [known] at entry
        cases entry
        rfl
      | some k =>
        rw [known] at entry
        cases entry with
        | some number => rw [number.eq_whole, Option.map_some]
  · intro name other
    have entry := same.lookup name
    rwa [lookup_replaced, if_neg other] at entry

theorem Replaces.load (replaces : Replaces document s again) (inRange : ∀ k : Key, k.least ≤ s.get k)
    {env : String → Option String} (unset : ∀ k, override? env k = none) : load again env = .ok s := by
  obtain ⟨entries, holds, stored⟩ := replaces.settings
  have section_ : section? again = .ok entries := by
    rw [section?, holds]
  have checked (k : Key) : check k (k.given? entries env) = .ok (s.get k) := by
    rw [Key.given?, unset, Option.none_or, stored, Key.ofWord?_word]
    exact check_eq_ok_iff.mpr ⟨rfl, inRange k⟩
  rw [load_of_section section_, ofValues_of_ok checked]
  rfl

end Settings

namespace Store

variable {ε : Type} {f : Format ε} {m : Medium} {store next last : Store} {path word text : String}
  {document table : Table} {s : Settings}

structure Writes (f : Format ε) (store : Store) (word text : String) (document : Table) (s : Settings) : Prop where
  reads : store.read f = .ok document
  accepted : Settings.Accepted document word text s

/-- What a call writes is written, or what is stored stays as it was. -/
def WritesWhole (f : Format ε) (m : Medium) (store : Store) (word text : String) : Prop :=
  ∀ document s, Writes f store word text document s →
    (store.write f m (Settings.replaced document s)).1 = .ok true ∨
      (store.write f m (Settings.replaced document s)).2 = store

/-- What a call writes reads back as the same data. -/
def ReadsBack (f : Format ε) (store : Store) (word text : String) : Prop :=
  ∀ document s content, Writes f store word text document s → f.render (Settings.replaced document s) = .ok content →
    ∃ again, (Store.text content).read f = .ok again ∧ Value.Same (.table (Settings.replaced document s)) (.table again)

theorem Writes.unique {document' : Table} {s' : Settings} (one : Writes f store word text document s)
    (other : Writes f store word text document' s') : document = document' ∧ s = s' := by
  obtain rfl : document = document' := Except.ok.inj (one.reads.symm.trans other.reads)
  have made := Settings.updated_eq_ok_iff.mpr one.accepted
  exact ⟨rfl, Except.ok.inj (made.symm.trans (Settings.updated_eq_ok_iff.mpr other.accepted))⟩

theorem read_of_malformed {content : String} {fault : ε}
    (torn : f.parse (.ofList (Text.unifyLineEnds content.toList)) = .error fault)
    (malformed : f.isMalformed fault = true) : (Store.text content).read f = .ok [] := by
  rw [read, torn]
  exact if_pos malformed

theorem updated_eq_of_writes (writes : Writes f store word text document s) : store.updated f word text = .ok s := by
  rw [Store.updated, writes.reads]
  exact congrArg (Except.mapError StoreError.settings) (Settings.updated_eq_ok_iff.mpr writes.accepted)

theorem update_of_writes (writes : Writes f store word text document s) (path : String) :
    store.update f m path word text = match store.write f m (Settings.replaced document s) with
      | (.ok true, next) => (.ok s, next)
      | (.ok false, next) => (.error (.unwritten path), next)
      | (.error fault, next) => (.error (.document fault), next) := by
  rw [update, updated_eq_of_writes writes]
  simp only [save, writes.reads]
  rfl

theorem update_of_written (writes : Writes f store word text document s)
    (written : (store.write f m (Settings.replaced document s)).1 = .ok true) :
    store.update f m path word text = (.ok s, (store.write f m (Settings.replaced document s)).2) := by
  rw [update_of_writes writes]
  generalize store.write f m (Settings.replaced document s) = answered at written ⊢
  obtain ⟨answer, next⟩ := answered
  obtain rfl : answer = .ok true := written
  rfl

theorem update_of_unwritten (writes : Writes f store word text document s)
    (unwritten : (store.write f m (Settings.replaced document s)).1 ≠ .ok true) (path : String) :
    ∃ e, store.update f m path word text = (.error e, (store.write f m (Settings.replaced document s)).2) := by
  rw [update_of_writes writes]
  generalize store.write f m (Settings.replaced document s) = answered at unwritten ⊢
  obtain ⟨fault | written, next⟩ := answered
  · exact ⟨_, rfl⟩
  · cases written with
    | false => exact ⟨_, rfl⟩
    | true => exact absurd rfl unwritten

/-- A call that does not come to writing changes nothing. -/
theorem update_cases (f : Format ε) (m : Medium) (store : Store) (path word text : String) :
    (∃ e, store.update f m path word text = (.error e, store)) ∨
      ∃ document s, Writes f store word text document s := by
  cases made : store.updated f word text with
  | error e =>
    left
    exact ⟨e, by rw [update, made]⟩
  | ok s =>
    right
    rw [Store.updated] at made
    split at made
    next => contradiction
    next document reads =>
      cases accepted : Settings.updated document word text with
      | error e =>
        rw [accepted] at made
        contradiction
      | ok s' =>
        rw [accepted] at made
        obtain rfl := Except.ok.inj made
        exact ⟨document, s', reads, Settings.updated_eq_ok_iff.mp accepted⟩

theorem exists_content_of_write (written : (store.write f m table).1 = .ok true) :
    ∃ content, f.render table = .ok content ∧ (store.write f m table).2 = .text content := by
  rw [write] at written ⊢
  split at written
  next => exact nomatch written
  next opens =>
    rw [if_neg opens]
    split at written
    next => exact nomatch written
    next content rendered =>
      split at written
      next => exact nomatch written
      next => exact ⟨content, rendered, rfl⟩

theorem eq_of_failed {e : StoreError ε} (whole : store.WritesWhole f m word text)
    (failed : store.update f m path word text = (.error e, next)) : next = store := by
  rcases update_cases f m store path word text with ⟨e', same⟩ | ⟨document, s, writes⟩
  · rw [same] at failed
    exact (Prod.mk.inj failed).2.symm
  · by_cases written : (store.write f m (Settings.replaced document s)).1 = .ok true
    · rw [update_of_written writes written] at failed
      exact nomatch (Prod.mk.inj failed).1
    · obtain ⟨e', kept⟩ := update_of_unwritten writes written path
      rw [kept] at failed
      rw [← (Prod.mk.inj failed).2]
      exact (whole document s writes).resolve_left written

/-- A run of calls that all fail, whatever the medium does to each. -/
inductive Fails (f : Format ε) (path : String) : Store → Store → Prop where
  | none (store : Store) : Fails f path store store
  | call {m : Medium} {store next last : Store} {word text : String} {e : StoreError ε} :
      store.WritesWhole f m word text → store.update f m path word text = (.error e, next) →
      Fails f path next last → Fails f path store last

theorem Fails.eq (fails : Fails f path store last) : last = store := by
  induction fails with
  | none => rfl
  | call whole failed _ ih => rw [ih, eq_of_failed whole failed]

/-- What a call that returned settings has done: it made them of what was read, and stored them in its place. -/
structure Updated (f : Format ε) (store : Store) (word text : String) (s : Settings) (next : Store) : Prop where
  replaces : ∃ document again, store.read f = .ok document ∧ Settings.Accepted document word text s ∧
    next.read f = .ok again ∧ Settings.Replaces document s again
  /-- Of a text that is no document nothing is left. -/
  emptied : ∀ content fault, store = .text content →
    f.parse (.ofList (Text.unifyLineEnds content.toList)) = .error fault → f.isMalformed fault = true →
    ∃ again, next.read f = .ok again ∧ ∀ name, name ≠ Settings.tableName → again.lookup name = none
  /-- Calls that fail afterwards do not touch the settings. -/
  lasts : ∀ path last, Fails f path next last → ∀ env, (∀ k, Settings.override? env k = none) →
    last.load f env = .ok s

theorem updated_of_written (writes : Writes f store word text document s) (backs : store.ReadsBack f word text)
    (written : (store.write f m (Settings.replaced document s)).1 = .ok true) :
    Updated f store word text s (store.write f m (Settings.replaced document s)).2 := by
  obtain ⟨content, rendered, stored⟩ := exists_content_of_write written
  obtain ⟨again, reads, same⟩ := backs document s content writes rendered
  have replaces := Settings.replaces_of_same same
  rw [stored]
  refine ⟨⟨document, again, writes.reads, writes.accepted, reads, replaces⟩, ?_, fun path last fails env unset => ?_⟩
  · rintro content fault rfl torn malformed
    obtain rfl : [] = document := Except.ok.inj ((read_of_malformed torn malformed).symm.trans writes.reads)
    refine ⟨again, reads, fun name other => ?_⟩
    have entry := replaces.others name other
    generalize again.lookup name = found at entry ⊢
    cases entry
    rfl
  · rw [fails.eq, load, reads]
    exact congrArg (Except.mapError StoreError.settings) (replaces.load writes.accepted.inRange unset)

/-- Whatever the format and the medium, as long as they keep what they write: a call raises and leaves what is stored as
it was, or it returns the settings that come of what was read, which are stored in their table from then on. It returns
them whenever they are accepted and can be written. -/
theorem update_atomic (f : Format ε) (m : Medium) (path : String) (whole : store.WritesWhole f m word text)
    (backs : store.ReadsBack f word text) :
    ((∃ e, store.update f m path word text = (.error e, store)) ∨
      ∃ s next, store.update f m path word text = (.ok s, next) ∧ Updated f store word text s next) ∧
    ∀ document s, store.read f = .ok document → Settings.Accepted document word text s →
      (store.write f m (Settings.replaced document s)).1 = .ok true →
      (store.update f m path word text).1 = .ok s := by
  refine ⟨?_, fun document s reads accepted written => by rw [update_of_written ⟨reads, accepted⟩ written]⟩
  rcases update_cases f m store path word text with unwritten | ⟨document, s, writes⟩
  · exact .inl unwritten
  · by_cases written : (store.write f m (Settings.replaced document s)).1 = .ok true
    · exact .inr ⟨s, _, update_of_written writes written, updated_of_written writes backs written⟩
    · obtain ⟨e, failed⟩ := update_of_unwritten writes written path
      exact .inl ⟨e, by rw [failed, eq_of_failed whole failed]⟩

def shared : Store := .text "[analysis]\nhistory_count = 9\nhue = \"red\"\n[own]\nk = 3\n"

def sharedTable : Table := [
  ("analysis", .table [("history_count", .whole 9), ("hue", .text "red")]), ("own", .table [("k", .whole 3)])]

def narrowed : Settings := { concurrency := 12, historyCount := 9 }

def narrowedLines : List (List Char) :=
  ["[analysis]", "concurrency = 12", "max_repo_files = 5000", "max_reverse_deps = 100", "second_ring_threshold = 50",
    "guard_condition_max = 80", "history_count = 9", "", "[own]", "k = 3", ""].map String.toList

def narrowedText : List Char := ['\n'].intercalate narrowedLines

theorem writes_narrowed : Writes Toml.format shared "concurrency" "1_2" sharedTable narrowed :=
  ⟨by rfl, Settings.updated_eq_ok_iff.mp (by rfl)⟩

theorem render_narrowed : Toml.render (Settings.replaced sharedTable narrowed) = .ok (.ofList narrowedText) := by
  decide +kernel

theorem read_toml {content : List Char} (lines : List (List Char)) (place : Toml.Place)
    (unified : Text.unifyLineEnds content = content) (outlined : Toml.outline content = .ok lines)
    (passed : lines.foldlM Toml.Reading.pass {} = .ok { top := .table table, place := place }) :
    (Store.text (.ofList content)).read Toml.format = .ok table := by
  have parsed : Toml.format.parse (.ofList content) = .ok table := by
    change Toml.parse (.ofList content) = .ok table
    rw [Toml.parse, String.toList_ofList]
    simp only [outlined, passed, bind, Except.bind]
    rfl
  rw [Store.read, String.toList_ofList, unified, parsed]

theorem read_narrowed :
    (Store.text (.ofList narrowedText)).read Toml.format = .ok (Settings.replaced sharedTable narrowed) :=
  read_toml narrowedLines [.name "own"] (by decide +kernel) (by decide +kernel) (by rfl)

/-- What is written reads back; on a medium that lets nothing be replaced, the document stays as it was. -/
theorem update_atomic_shared :
    shared.WritesWhole Toml.format {} "concurrency" "1_2" ∧ shared.ReadsBack Toml.format "concurrency" "1_2" ∧
      shared.update Toml.format {} "config.toml" "concurrency" "1_2" = (.ok narrowed, .text (.ofList narrowedText)) ∧
      Updated Toml.format shared "concurrency" "1_2" narrowed (.text (.ofList narrowedText)) ∧
      shared.WritesWhole Toml.format { opens := false } "concurrency" "1_2" ∧
      ∃ e, shared.update Toml.format { opens := false } "config.toml" "concurrency" "1_2" = (.error e, shared) := by
  have written : shared.write Toml.format {} (Settings.replaced sharedTable narrowed) =
      (.ok true, .text (.ofList narrowedText)) := by
    simp [write, Toml.format, render_narrowed]
  have whole : shared.WritesWhole Toml.format {} "concurrency" "1_2" := by
    intro document s writes
    obtain ⟨rfl, rfl⟩ := writes.unique writes_narrowed
    exact .inl (by rw [written])
  have closed : shared.WritesWhole Toml.format { opens := false } "concurrency" "1_2" := fun _ _ _ => .inr rfl
  have backs : shared.ReadsBack Toml.format "concurrency" "1_2" := by
    intro document s content writes rendered
    obtain ⟨rfl, rfl⟩ := writes.unique writes_narrowed
    obtain rfl := Except.ok.inj (render_narrowed.symm.trans rendered)
    exact ⟨_, read_narrowed, .refl _⟩
  have returned : shared.update Toml.format {} "config.toml" "concurrency" "1_2" =
      (.ok narrowed, .text (.ofList narrowedText)) := by
    rw [update_of_writes writes_narrowed, written]
  refine ⟨whole, backs, returned, ?_, closed, ?_⟩
  · obtain ⟨e, failed⟩ | ⟨s, next, returns, updated⟩ := (update_atomic Toml.format {} "config.toml" whole backs).1
    · rw [returned] at failed
      exact nomatch (Prod.mk.inj failed).1
    · rw [returned] at returns
      obtain ⟨⟨⟩, rfl⟩ := Prod.mk.inj returns
      exact updated
  · obtain failed | ⟨s, next, returns, -⟩ :=
      (update_atomic Toml.format { opens := false } "config.toml" closed backs).1
    · exact failed
    · rw [update_of_writes writes_narrowed] at returns
      exact nomatch (Prod.mk.inj returns).1

def torn : Store := .text "[own]\nk = 3\n[analysis\n"

def sevenLines : List (List Char) :=
  ["[analysis]", "concurrency = 7", "max_repo_files = 5000", "max_reverse_deps = 100", "second_ring_threshold = 50",
    "guard_condition_max = 80", "history_count = 5", ""].map String.toList

def sevenText : List Char := ['\n'].intercalate sevenLines

def sevenTable : Table := [("analysis", .table (Settings.toTable { concurrency := 7 }))]

theorem writes_torn : Writes Toml.format torn "concurrency" "7" [] { concurrency := 7 } :=
  ⟨by rfl, Settings.updated_eq_ok_iff.mp (by rfl)⟩

theorem render_seven : Toml.render sevenTable = .ok (.ofList sevenText) := by
  decide +kernel

/-- The call returns, and the table above the header is stored no more. -/
theorem torn_overwritten :
    (Store.text "[own]\nk = 3\n").read Toml.format = .ok [("own", .table [("k", .whole 3)])] ∧
      torn.update Toml.format {} "config.toml" "concurrency" "7" =
        (.ok { concurrency := 7 }, .text (.ofList sevenText)) ∧
      (Store.text (.ofList sevenText)).read Toml.format = .ok sevenTable ∧ sevenTable.lookup "own" = none := by
  refine ⟨by rfl, ?_, ?_, by decide⟩
  · have written : torn.write Toml.format {} (Settings.replaced [] { concurrency := 7 }) =
        (.ok true, .text (.ofList sevenText)) := by
      change torn.write Toml.format {} sevenTable = _
      simp [write, Toml.format, render_seven]
    rw [update_of_writes writes_torn, written]
  · exact read_toml sevenLines [.name "analysis"] (by decide +kernel) (by decide +kernel) (by rfl)

end Store
end ChangeLens.Config
