import ChangeLens.Config.Store

/-! Whether each setting is settled by itself. It is as long as no value is refused. One refused value takes all the
others down to their defaults, those of the environment too. -/
namespace ChangeLens.Config

namespace Key

def accept? (k : Key) : Value → Option Nat
  | .whole value => if (k.least : Int) ≤ value then some value.toNat else none
  | _ => none

variable (k : Key) (entries : Table) (env : String → Option String)

/-- The value given for a setting, in range or not. One of the environment hides that of the table. -/
def given? : Option Value := (Settings.override? env k).or (entries.lookup k.word)

def Refused : Prop := ∃ v, k.given? entries env = some v ∧ k.accept? v = none

/-- What a setting comes to by itself: the number of the environment if that is accepted, or else the number of the
table if that is accepted, or else the default. -/
def alone : Nat :=
  (((Settings.override? env k).bind k.accept?).or ((entries.lookup k.word).bind k.accept?)).getD (Settings.get {} k)

variable {k : Key} {entries : Table} {env : String → Option String}

theorem alone_of_accepted {v : Value} {n : Nat} (given : k.given? entries env = some v)
    (accepted : k.accept? v = some n) : k.alone entries env = n := by
  rcases Option.or_eq_some_iff.mp given with set | ⟨unset, stored⟩
  · simp [alone, set, accepted]
  · simp [alone, unset, stored, accepted]

theorem alone_of_nothing (nothing : k.given? entries env = none) : k.alone entries env = Settings.get {} k := by
  obtain ⟨unset, absent⟩ := Option.or_eq_none_iff.mp nothing
  simp [alone, unset, absent]

theorem ofWord?_word (k : Key) : ofWord? k.word = some k := by
  cases k <;> decide

end Key

namespace Settings

def of (value : Key → Nat) : Settings :=
  ⟨value .concurrency, value .maxRepoFiles, value .maxReverseDeps, value .secondRingThreshold,
    value .guardConditionMax, value .historyCount⟩

@[simp] theorem get_of (value : Key → Nat) (k : Key) : (of value).get k = value k := by
  cases k <;> rfl

theorem check_some_cases (k : Key) (v : Value) :
    (∃ n, k.accept? v = some n ∧ check k (some v) = .ok n) ∨
      k.accept? v = none ∧ ∃ e, check k (some v) = .error e := by
  cases v with
  | whole value =>
    by_cases low : value < k.least
    · exact .inr ⟨if_neg (by omega), _, if_pos low⟩
    · exact .inl ⟨_, if_pos (by omega), if_neg low⟩
  | nothing | truth | decimal | notANumber | moment | text | unpaired | list | table => exact .inr ⟨rfl, _, rfl⟩

theorem exists_ok_of_bind {ε α β : Type} {x : Except ε α} {f : α → Except ε β} {b : β} (done : x >>= f = .ok b) :
    ∃ a, x = .ok a ∧ f a = .ok b := by
  cases x with
  | error => exact nomatch done
  | ok a => exact ⟨a, rfl, done⟩

variable {value? : Key → Option Value}

theorem ofValues_of_ok {value : Key → Nat} (checked : ∀ k, check k (value? k) = .ok (value k)) :
    ofValues value? = .ok (of value) := by
  simp only [ofValues, checked]
  rfl

theorem check_of_ofValues {s : Settings} (made : ofValues value? = .ok s) (k : Key) :
    check k (value? k) = .ok (s.get k) := by
  obtain ⟨_, concurrency, made⟩ := exists_ok_of_bind made
  obtain ⟨_, maxRepoFiles, made⟩ := exists_ok_of_bind made
  obtain ⟨_, maxReverseDeps, made⟩ := exists_ok_of_bind made
  obtain ⟨_, secondRingThreshold, made⟩ := exists_ok_of_bind made
  obtain ⟨_, guardConditionMax, made⟩ := exists_ok_of_bind made
  obtain ⟨_, historyCount, made⟩ := exists_ok_of_bind made
  obtain rfl := Except.ok.inj made
  cases k <;> assumption

variable {document entries : Table} {env : String → Option String}

theorem load_of_section (holds : section? document = .ok entries) :
    load document env = match ofValues fun k => k.given? entries env with
      | .ok s => .ok s
      | .error _ => .ok {} := by
  rw [load, holds]
  rfl

theorem load_of_accepted (holds : section? document = .ok entries) (accepted : ∀ k : Key, ¬k.Refused entries env) :
    load document env = .ok (of fun k => k.alone entries env) := by
  have checked (k : Key) : check k (k.given? entries env) = .ok (k.alone entries env) := by
    cases given : k.given? entries env with
    | none => rw [Key.alone_of_nothing given, check]
    | some v =>
      rcases check_some_cases k v with ⟨n, taken, passes⟩ | ⟨refused, -⟩
      · rw [passes, Key.alone_of_accepted given taken]
      · exact absurd ⟨v, given, refused⟩ (accepted k)
  rw [load_of_section holds, ofValues_of_ok checked]

theorem load_of_refused (holds : section? document = .ok entries) {k : Key} (refused : k.Refused entries env) :
    load document env = .ok {} := by
  obtain ⟨v, given, rejected⟩ := refused
  rw [load_of_section holds]
  cases made : ofValues fun k => k.given? entries env with
  | error => rfl
  | ok s =>
    have passes := check_of_ofValues made k
    rw [given] at passes
    rcases check_some_cases k v with ⟨n, taken, -⟩ | ⟨-, e, fails⟩
    · exact nomatch rejected.symm.trans taken
    · exact nomatch fails.symm.trans passes

def knownOnly (entries : Table) : Table := entries.filter fun e => (Key.ofWord? e.1).isSome

theorem lookup_knownOnly (entries : Table) (k : Key) : (knownOnly entries).lookup k.word = entries.lookup k.word := by
  induction entries with
  | nil => rfl
  | cons e entries ih =>
    obtain ⟨word, value⟩ := e
    rw [knownOnly] at ih
    by_cases same : k.word = word
    · subst same
      simp [knownOnly, Key.ofWord?_word]
    · rw [knownOnly, List.filter_cons, List.lookup_cons, beq_false_of_ne same]
      split
      · rw [List.lookup_cons, beq_false_of_ne same, ih]
      · exact ih

theorem load_knownOnly (holds : section? document = .ok entries) :
    load [(tableName, .table (knownOnly entries))] env = load document env := by
  have only : section? [(tableName, .table (knownOnly entries))] = .ok (knownOnly entries) := by
    simp [section?]
  have given : (fun k : Key => k.given? (knownOnly entries) env) = fun k => k.given? entries env := by
    funext k
    rw [Key.given?, lookup_knownOnly, Key.given?]
  rw [load_of_section only, load_of_section holds, given]

/-- What loading comes to: each setting by itself if no value is refused, and the defaults otherwise. The two are the
same only where every setting comes to its default anyway. -/
structure Settles (document entries : Table) (env : String → Option String) (s : Settings) : Prop where
  loads : load document env = .ok s
  stored : ∀ {ε : Type} (f : Format ε) (store : Store), store.read f = .ok document → store.load f env = .ok s
  accepted : (∀ k : Key, ¬k.Refused entries env) → ∀ k : Key, s.get k = k.alone entries env
  refused : ∀ k : Key, k.Refused entries env → ∀ other : Key, s.get other = get {} other
  alone_iff : (∀ k : Key, s.get k = k.alone entries env) ↔
    (∀ k : Key, ¬k.Refused entries env) ∨ ∀ k : Key, k.alone entries env = get {} k
  unknown : load [(tableName, .table (knownOnly entries))] env = .ok s

theorem load_settles (holds : section? document = .ok entries) (env : String → Option String) :
    ∃ s, Settles document entries env s := by
  have unknown : load [(tableName, .table (knownOnly entries))] env = load document env := load_knownOnly holds
  have stored {ε : Type} (f : Format ε) (store : Store) (reads : store.read f = .ok document) :
      store.load f env = (load document env).mapError .settings := by
    rw [Store.load, reads]
  by_cases accepted : ∀ k : Key, ¬k.Refused entries env
  · have loads := load_of_accepted holds accepted
    have values (k : Key) : (of fun k => k.alone entries env).get k = k.alone entries env := get_of _ k
    rw [loads] at unknown stored
    exact ⟨_, loads, stored, fun _ => values, fun k refused => absurd refused (accepted k),
      iff_of_true values (.inl accepted), unknown⟩
  · obtain ⟨k, refused⟩ := Classical.not_forall_not.mp accepted
    have loads := load_of_refused holds refused
    rw [loads] at unknown stored
    refine ⟨_, loads, stored, fun all => absurd all accepted, fun _ _ _ => rfl, ⟨fun same => ?_, ?_⟩, unknown⟩
    · exact .inr fun k => (same k).symm
    · rintro (all | defaults)
      · exact absurd all accepted
      · exact fun k => (defaults k).symm

def fewFiles : String → Option String
  | "DIFFINTEL_MAX_REPO_FILES" => some "7"
  | _ => none

def longHistory : Table := [("history_count", .whole 9), ("colour", .text "red")]

def idle : Table := [("concurrency", .whole 0), ("history_count", .whole 9)]

theorem load_settles_longHistory : section? [(tableName, .table longHistory)] = .ok longHistory ∧
    ∃ s, Settles [(tableName, .table longHistory)] longHistory fewFiles s ∧
      s = ({ maxRepoFiles := 7, historyCount := 9 } : Settings) := by
  have holds : section? [(tableName, .table longHistory)] = .ok longHistory := rfl
  obtain ⟨s, settles⟩ := load_settles holds fewFiles
  exact ⟨holds, s, settles, Except.ok.inj (settles.loads.symm.trans rfl)⟩

/-- The number of files in hand is refused, and the two settings that are accepted by themselves are lost with it. -/
theorem idle_loses_accepted : section? [(tableName, .table idle)] = .ok idle ∧
    Key.concurrency.Refused idle fewFiles ∧ Key.historyCount.alone idle fewFiles = 9 ∧
    Key.maxRepoFiles.alone idle fewFiles = 7 ∧
    ∃ s, load [(tableName, .table idle)] fewFiles = .ok s ∧ s.historyCount = 5 ∧ s.maxRepoFiles = 5000 :=
  ⟨rfl, ⟨.whole 0, rfl, rfl⟩, rfl, rfl, {}, rfl, rfl, rfl⟩

end Settings
end ChangeLens.Config
