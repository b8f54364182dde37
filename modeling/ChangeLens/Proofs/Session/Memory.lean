import ChangeLens.Proofs.Keyed
import ChangeLens.Toolchain

/-! What a session remembers. It answers every request as a session that has just been started would, and of the
grammars that cannot be had it tells once, at the first request that needs one. A source that cannot be parsed is told
of each time. -/
namespace ChangeLens

/-- The language whose grammar could not be loaded. -/
def Warning.unloaded? : Warning → Option String
  | notInstalled language | loadFailed language => some language
  | parseFailed _ => none

namespace Session

variable {α : Type} {t : Toolchain} {s : Session} {asked : List String}

/-- What the first request for a grammar has to report. -/
def loadWarning? (t : Toolchain) (language : String) : Option Warning :=
  match (t.grammars.find? language).map t.shelf.load with
  | some .notInstalled => some (.notInstalled language)
  | some .broken => some (.loadFailed language)
  | _ => none

theorem unloaded_of_loadWarning {language : String} {w : Warning} (reported : loadWarning? t language = some w) :
    w.unloaded? = some language := by
  rw [loadWarning?] at reported
  split at reported
  next => rw [← Option.some.inj reported]; rfl
  next => rw [← Option.some.inj reported]; rfl
  next => contradiction

theorem firstRequest_eq (t : Toolchain) (language : String) :
    firstRequest t language = (t.available language, (loadWarning? t language).toList) := by
  rw [firstRequest, loadWarning?, Toolchain.available]
  cases t.grammars.find? language with
  | none => rfl
  | some g =>
    simp only [Option.map_some, Option.getD_some]
    cases t.shelf.load g <;> rfl

/-- The languages that are needed and have not been asked for, each once, in the order in which they are needed. -/
def unasked (asked needed : List String) : List String := (needed.filter (· ∉ asked)).eraseDups

theorem unasked_singleton (asked : List String) (language : String) :
    unasked asked [language] = if language ∈ asked then [] else [language] := by
  by_cases known : language ∈ asked <;> simp [unasked, known, List.eraseDups_cons]

theorem unasked_append (asked first second : List String) :
    unasked asked (first ++ second) = unasked asked first ++ unasked (asked ++ first) second := by
  rw [unasked, List.filter_append, List.eraseDups_append, ← unasked, unasked, List.removeAll, List.filter_filter]
  congr 2
  refine List.filter_congr fun language _ => ?_
  by_cases known : language ∈ asked <;> simp [known]

/-- The session knows of the languages that it was asked for, and of no other, whether they have a grammar. -/
structure Remembers (t : Toolchain) (asked : List String) (s : Session) : Prop where
  tools : s.tools = t
  known : ∀ language, s.known.lookup language = if language ∈ asked then some (t.available language) else none

theorem remembers_start (t : Toolchain) : Remembers t [] (start t) := ⟨rfl, fun _ => rfl⟩

/-- A step that gives what it should, tells of the grammars that it is the first to need, and then of `faults`. -/
structure Step.Serves (x : Step α) (t : Toolchain) (asked needed : List String) (faults : List Warning) (a : α) :
    Prop where
  result : x.result = a
  warnings : x.warnings = (unasked asked needed).filterMap (loadWarning? t) ++ faults
  next : Remembers t (asked ++ needed) x.next

theorem Step.serves_idle (remembers : Remembers t asked s) (a : α) : Step.Serves ⟨a, [], s⟩ t asked [] [] a :=
  ⟨rfl, rfl, (List.append_nil asked).symm ▸ remembers⟩

theorem Step.Serves.map {x : Step α} {needed : List String} {faults : List Warning} {a : α} {β : Type}
    (serves : x.Serves t asked needed faults a) (f : α → β) : (x.map f).Serves t asked needed faults (f a) :=
  ⟨congrArg f serves.result, serves.warnings, serves.next⟩

theorem obtain_serves (remembers : Remembers t asked s) (language : String) :
    (s.obtain language).Serves t asked [language] [] (t.available language) := by
  obtain ⟨rfl, known⟩ := remembers
  rw [obtain, known]
  by_cases old : language ∈ asked
  · rw [if_pos old]
    refine ⟨rfl, by simp [unasked_singleton, old], rfl, fun other => ?_⟩
    rw [known]
    by_cases same : other = language
    · simp [same, old]
    · simp [same]
  · rw [if_neg old]
    simp only [firstRequest_eq]
    refine ⟨rfl, ?_, rfl, fun other => ?_⟩
    · rw [unasked_singleton, if_neg old]
      cases report : loadWarning? s.tools language <;> simp [report]
    · rw [List.lookup_cons, known]
      by_cases same : other = language
      · simp [same]
      · simp [same, beq_false_of_ne same]

theorem obtainAll_serves (remembers : Remembers t asked s) (languages : List String) :
    (s.obtainAll languages).Serves t asked languages [] (languages.filter t.available) := by
  induction languages generalizing asked s with
  | nil => exact Step.serves_idle remembers []
  | cons language languages ih =>
    have first := obtain_serves remembers language
    have rest := ih first.next
    refine ⟨?_, ?_, ?_⟩
    · rw [obtainAll, first.result, rest.result, List.filter_cons]
    · rw [obtainAll, first.warnings, rest.warnings, List.append_nil, ← List.append_assoc, ← List.filterMap_append,
        ← unasked_append]
      rfl
    · rw [obtainAll, ← List.singleton_append, ← List.append_assoc]
      exact rest.next

inductive Request where
  | parse (language source : String)
  | availableLanguages
  | supports (extension : String)
  | languageFor (path : String)

inductive Reply where
  | parsed (outcome : Parse)
  | languages (ids : List String)
  | supported (answer : Bool)
  | language (id : Option String)

namespace Request

/-- The languages whose grammars the request needs, in order. -/
def needs (t : Toolchain) : Request → List String
  | parse language _ => [language]
  | availableLanguages => t.grammars.keys
  | supports extension => (t.languageForExtension? extension).toList
  | languageFor _ => []

/-- What the request has to report whenever it is made: a source that its grammar cannot parse. -/
def faults (t : Toolchain) : Request → List Warning
  | parse language source =>
    match t.available language, t.parser language source with
    | true, .failed => [.parseFailed language]
    | _, _ => []
  | _ => []

def reply (t : Toolchain) : Request → Reply
  | parse language source => .parsed (t.parse language source)
  | availableLanguages => .languages t.availableLanguages
  | supports extension => .supported (t.supports extension)
  | languageFor path => .language (t.languageFor? path)

end Request

def serve (s : Session) : Request → Step Reply
  | .parse language source => (s.parse language source).map .parsed
  | .availableLanguages => s.availableLanguages.map .languages
  | .supports extension => (s.supports extension).map .supported
  | .languageFor path => (s.languageFor? path).map .language

def serveAll (s : Session) : List Request → List (Step Reply)
  | [] => []
  | r :: requests => s.serve r :: (s.serve r).next.serveAll requests

theorem parse_serves (remembers : Remembers t asked s) (language source : String) :
    (s.parse language source).Serves t asked [language] (Request.faults t (.parse language source))
      (t.parse language source) := by
  have asking := obtain_serves remembers language
  obtain ⟨rfl, -⟩ := remembers
  rw [parse, Toolchain.parse]
  simp only [asking.result, Request.faults]
  cases s.tools.available language with
  | false => exact ⟨rfl, asking.warnings, asking.next⟩
  | true =>
    cases s.tools.parser language source with
    | failed => exact ⟨rfl, by simp [asking.warnings], asking.next⟩
    | _ => exact ⟨rfl, asking.warnings, asking.next⟩

theorem supports_serves (remembers : Remembers t asked s) (extension : String) :
    (s.supports extension).Serves t asked (t.languageForExtension? extension).toList [] (t.supports extension) := by
  rw [supports, Toolchain.supports, remembers.tools]
  cases t.languageForExtension? extension with
  | none => exact Step.serves_idle remembers false
  | some language => exact obtain_serves remembers language

/-- One request, whatever was asked before. -/
theorem serve_serves (remembers : Remembers t asked s) (r : Request) :
    (s.serve r).Serves t asked (r.needs t) (r.faults t) (r.reply t) := by
  cases r with
  | parse language source => exact (parse_serves remembers language source).map Reply.parsed
  | availableLanguages =>
    rw [serve, availableLanguages, remembers.tools]
    exact (obtainAll_serves remembers _).map Reply.languages
  | supports extension => exact (supports_serves remembers extension).map Reply.supported
  | languageFor path =>
    rw [serve, languageFor?, remembers.tools]
    exact (Step.serves_idle remembers _).map Reply.language

def needed (t : Toolchain) (requests : List Request) : List String := requests.flatMap (Request.needs t)

/-- A request among others: what was asked before it shows only in what it needs not tell of any more. -/
theorem serveAll_serves (remembers : Remembers t asked s) (before : List Request) (r : Request)
    (after : List Request) :
    ∃ x, (s.serveAll (before ++ r :: after))[before.length]? = some x ∧
      x.Serves t (asked ++ needed t before) (r.needs t) (r.faults t) (r.reply t) := by
  induction before generalizing asked s with
  | nil => exact ⟨_, rfl, (List.append_nil asked).symm ▸ serve_serves remembers r⟩
  | cons first before ih =>
    obtain ⟨x, here, serves⟩ := ih (serve_serves remembers first).next
    rw [List.append_assoc] at serves
    exact ⟨x, here, serves⟩

theorem filterMap_loadWarning (t : Toolchain) (languages : List String) :
    (languages.filterMap (loadWarning? t)).filterMap Warning.unloaded? =
      languages.filter fun language => (loadWarning? t language).isSome := by
  rw [List.filterMap_filterMap, ← List.filterMap_eq_filter]
  refine List.filterMap_congr fun language _ => ?_
  cases reported : loadWarning? t language with
  | none => simp [Option.guard, reported]
  | some w => simp [Option.guard, reported, unloaded_of_loadWarning reported]

theorem Request.filterMap_faults (t : Toolchain) (r : Request) : (r.faults t).filterMap Warning.unloaded? = [] := by
  cases r with
  | parse language source =>
    rw [faults]
    split <;> rfl
  | _ => rfl

theorem Step.Serves.unloaded {x : Step α} {needed : List String} {r : Request} {a : α}
    (serves : x.Serves t asked needed (r.faults t) a) :
    x.warnings.filterMap Warning.unloaded? =
      (unasked asked needed).filter fun language => (loadWarning? t language).isSome := by
  rw [serves.warnings, List.filterMap_append, filterMap_loadWarning, r.filterMap_faults, List.append_nil]

/-- Some requests tell of the grammars that they are the first to need and that cannot be had. -/
theorem unloaded_serveAll (remembers : Remembers t asked s) (requests : List Request) :
    ((s.serveAll requests).flatMap (·.warnings)).filterMap Warning.unloaded? =
      (unasked asked (needed t requests)).filter fun language => (loadWarning? t language).isSome := by
  induction requests generalizing asked s with
  | nil => rfl
  | cons r requests ih =>
    have serves := serve_serves remembers r
    rw [serveAll, List.flatMap_cons, List.filterMap_append, serves.unloaded, ih serves.next, ← List.filter_append,
      ← unasked_append]
    rfl

/-- Every request of a sequence is answered as if it were the first. It tells of the grammars that cannot be had and
that no request before it needed, and of a source that cannot be parsed each time. So no grammar is told of twice. -/
theorem serveAll_as_if_first (t : Toolchain) (before : List Request) (r : Request) (after : List Request) :
    let requests := before ++ r :: after
    let steps := (start t).serveAll requests
    let unloaded := (steps.flatMap (·.warnings)).filterMap Warning.unloaded?
    (∃ x, steps[before.length]? = some x ∧
      x.result = ((start t).serve r).result ∧ x.result = r.reply t ∧
      x.warnings = (unasked (needed t before) (r.needs t)).filterMap (loadWarning? t) ++ r.faults t) ∧
    unloaded.Nodup ∧
      ∀ language, language ∈ unloaded ↔ language ∈ needed t requests ∧ (loadWarning? t language).isSome := by
  intro requests steps unloaded
  obtain ⟨x, here, serves⟩ := serveAll_serves (remembers_start t) before r after
  have first := serve_serves (remembers_start t) r
  have told : unloaded = (needed t requests).eraseDups.filter fun language => (loadWarning? t language).isSome := by
    simpa [unasked] using unloaded_serveAll (remembers_start t) requests
  refine ⟨⟨x, here, serves.result.trans first.result.symm, serves.result, serves.warnings⟩, ?_, fun language => ?_⟩
  · rw [told]
    exact (nodup_eraseDups _).filter _
  · rw [told, List.mem_filter, List.mem_eraseDups]

end Session
end ChangeLens
