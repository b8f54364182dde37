import ChangeLens.Language.Registry
import ChangeLens.Proofs.Path.Extension
import Mathlib.Data.List.Nodup
import Mathlib.Data.List.Pairwise

/-! What a registry finds of the languages from which it was built. It is built just if nothing is listed twice, and
every language is found by its id. By an extension a language is found just if it lists the extension in lower case,
which is how it is looked up; how the extension is spelled in the list, or at the end of a path, is all the same. -/
namespace ChangeLens

open Text

namespace Language

@[simp] theorem id_withFamily (l : Language) : l.withFamily.id = l.id := by
  unfold withFamily
  split <;> rfl

@[simp] theorem extensions_withFamily (l : Language) : l.withFamily.extensions = l.extensions := by
  unfold withFamily
  split <;> rfl

end Language

namespace Registry

variable {languages : List Language} {r : Registry} {l : Language}

/-- The texts are distinct, and none of them was seen before. -/
def Fresh (seen xs : List String) : Prop := xs.Nodup ∧ xs.Disjoint seen

theorem fresh_cons {seen xs : List String} {x : String} : Fresh seen (x :: xs) ↔ x ∉ seen ∧ Fresh (x :: seen) xs := by
  simp only [Fresh, List.nodup_cons, List.disjoint_cons_left, List.disjoint_cons_right]
  tauto

theorem fresh_append {seen xs ys : List String} :
    Fresh seen (xs ++ ys) ↔ Fresh seen xs ∧ Fresh (xs.reverse ++ seen) ys := by
  simp only [Fresh, List.nodup_append', List.disjoint_append_left, List.disjoint_append_right,
    List.disjoint_reverse_right, @List.disjoint_comm _ ys xs]
  tauto

theorem lookup_eq_none_iff_notMem {claimed : List (String × String)} {e : String} :
    claimed.lookup e = none ↔ e ∉ claimed.map (·.1) := by
  rw [List.lookup_eq_none_iff]
  simp only [List.mem_map, not_exists, not_and, bne_iff_ne, ne_eq]
  exact forall₂_congr fun _ _ => not_congr eq_comm

/-- A language claims its extensions just if it lists none twice and none that was claimed before. -/
theorem claim_eq_ok_iff {id : String} {es : List String} {claimed claimed' : List (String × String)} :
    claim id es claimed = .ok claimed' ↔
      Fresh (claimed.map (·.1)) es ∧ claimed' = (es.map (·, id)).reverse ++ claimed := by
  induction es generalizing claimed with
  | nil => simp [claim, Fresh, eq_comm]
  | cons e es ih =>
    rw [claim, fresh_cons, ← lookup_eq_none_iff_notMem]
    cases claimed.lookup e with
    | some first => simp
    | none => simp [ih]

/-- The languages pass just if no id and no extension occurs twice, among them or among those seen before. -/
theorem check_eq_ok_iff {ls : List Language} {ids : List String} {claimed : List (String × String)} :
    check ls ids claimed = .ok () ↔
      Fresh ids (ls.map (·.id)) ∧ Fresh (claimed.map (·.1)) (ls.flatMap (·.extensions)) := by
  induction ls generalizing ids claimed with
  | nil => simp [check, Fresh]
  | cons l ls ih =>
    rw [check, List.map_cons, List.flatMap_cons, fresh_cons, fresh_append]
    by_cases seen : l.id ∈ ids
    · simp [seen]
    cases claims : claim l.id l.extensions claimed with
    | error clash =>
      have taken : ¬Fresh (claimed.map (·.1)) l.extensions := by
        intro fits
        rw [claim_eq_ok_iff.mpr ⟨fits, rfl⟩] at claims
        contradiction
      simp [seen, taken]
    | ok more =>
      obtain ⟨fits, rfl⟩ := claim_eq_ok_iff.mp claims
      simp [seen, fits, ih, Function.comp_def]

theorem build_eq_ok_iff : build languages = .ok r ↔
    ((languages.map (·.id)).Nodup ∧ (languages.flatMap (·.extensions)).Nodup) ∧ r = ⟨languages.map (·.withFamily)⟩ := by
  have passes : check languages [] [] = .ok () ↔
      (languages.map (·.id)).Nodup ∧ (languages.flatMap (·.extensions)).Nodup := by
    simp [check_eq_ok_iff, Fresh]
  rw [build, ← passes]
  cases check languages [] [] with
  | error clash => simp [Except.map]
  | ok => simp [Except.map, eq_comm]

/-- No two languages share an id, and no extension is listed twice. -/
structure Unambiguous (r : Registry) : Prop where
  ids : (r.languages.map (·.id)).Nodup
  extensions : (r.languages.flatMap (·.extensions)).Nodup

theorem unambiguous_of_build (built : build languages = .ok r) : r.Unambiguous := by
  obtain ⟨⟨ids, extensions⟩, rfl⟩ := build_eq_ok_iff.mp built
  exact ⟨by simpa [Function.comp_def] using ids, by simpa [List.flatMap_map] using extensions⟩

theorem build_standard : build Catalog.languages = .ok standard := by
  have families : Catalog.languages.map (·.withFamily) = Catalog.languages := rfl
  exact build_eq_ok_iff.mpr ⟨⟨by decide +kernel, by decide +kernel⟩, by rw [families, standard]⟩

theorem unambiguous_standard : standard.Unambiguous := unambiguous_of_build build_standard

theorem get?_id (clear : r.Unambiguous) (member : l ∈ r.languages) : r.get? l.id = some l := by
  cases found : r.get? l.id with
  | none => exact absurd (List.find?_eq_none.mp found l member) (by simp)
  | some other =>
    have named : other.id = l.id := by simpa using List.find?_some found
    rw [List.inj_on_of_nodup_map clear.ids (List.mem_of_find?_eq_some found) member named]

theorem eq_of_listed (clear : r.Unambiguous) {other : Language} (here : l ∈ r.languages) (there : other ∈ r.languages)
    {e : String} (one : e ∈ l.extensions) (two : e ∈ other.extensions) : l = other := by
  by_contra different
  have disjoint := (List.nodup_flatMap.mp clear.extensions).2
  have symm : Std.Symm (Function.onFun List.Disjoint Language.extensions) := ⟨fun _ _ apart e here there => apart there here⟩
  exact disjoint.forall here there different one two

theorem listing?_eq_some_iff (clear : r.Unambiguous) {e : String} :
    r.listing? e = some l ↔ l ∈ r.languages ∧ e ∈ l.extensions := by
  have lists {l : Language} (found : r.listing? e = some l) : l ∈ r.languages ∧ e ∈ l.extensions :=
    ⟨List.mem_of_find?_eq_some found, by simpa using List.find?_some found⟩
  refine ⟨lists, fun ⟨member, listed⟩ => ?_⟩
  cases found : r.listing? e with
  | none => exact absurd (List.find?_eq_none.mp found l member) (by simpa using listed)
  | some other =>
    obtain ⟨there, too⟩ := lists found
    rw [eq_of_listed clear there member too listed]

theorem forExtension?_eq_some_iff (clear : r.Unambiguous) {e : String} :
    r.forExtension? e = some l ↔ l ∈ r.languages ∧ lower e ∈ l.extensions := listing?_eq_some_iff clear

theorem mem_extensions {e : String} : e ∈ r.extensions ↔ ∃ l ∈ r.languages, e ∈ l.extensions := by
  simp [extensions, List.mem_mergeSort]

/-- The name of a file without its extension, which begins with no dot. -/
def IsStem (n : String) : Prop := '/' ∉ n.toList ∧ ∃ c cs, n.toList = c :: cs ∧ c ≠ '.'

theorem IsStem.isExtension {n t : String} (stem : IsStem n) (single : '.' ∉ t.toList) (flat : '/' ∉ t.toList) :
    Path.IsExtension n ("." ++ t) := by
  obtain ⟨bare, c, cs, first, visible⟩ := stem
  exact ⟨⟨t, rfl, single, flat⟩, [], c, cs, first, visible, first ▸ bare⟩

/-- Of a name and what follows its last dot the latter is the extension, unless it goes on in another segment. -/
theorem extension_stem {n t : String} (stem : IsStem n) (single : '.' ∉ t.toList) :
    Path.extension (n ++ ("." ++ t)) = if '/' ∈ t.toList then "" else "." ++ lower t := by
  by_cases deeper : '/' ∈ t.toList
  · rw [if_pos deeper]
    rcases Path.extension_cases (n ++ ("." ++ t)) with ⟨-, none⟩ | ⟨root, ext, same, is⟩
    · exact none
    · -- An extension would begin at the same dot, behind which there is a slash.
      obtain ⟨u, rfl, alone, flat⟩ := is.dotted
      have chars : root.toList ++ '.' :: u.toList = n.toList ++ '.' :: t.toList := by
        simpa using congrArg String.toList same
      have after := congrArg (cutLast '.' · |>.2) chars
      simp only [cutLast_append _ single, cutLast_append _ alone] at after
      exact absurd (after ▸ deeper) flat
  · rw [(stem.isExtension single deeper).extension_eq, if_neg deeper, lower_dot]

/-- At the end of the name of a file an extension finds what it finds alone. -/
theorem forPath?_stem (r : Registry) {n t : String} (stem : IsStem n) (single : '.' ∉ t.toList) :
    r.forPath? (n ++ ("." ++ t)) = if '/' ∈ t.toList then r.listing? "" else r.forExtension? ("." ++ t) := by
  rw [forPath?, extension_stem stem single]
  split
  next => rfl
  next => rw [forExtension?, forExtension?, lower_dot, lower_dot, lower_lower]

/-- What a registry finds of some languages. -/
structure Finds (languages : List Language) (r : Registry) : Prop where
  byId : ∀ l ∈ languages, r.get? l.id = some l.withFamily
  supported : ∀ e, e ∈ r.extensions ↔ ∃ l ∈ languages, e ∈ l.extensions
  byExtension : ∀ l ∈ languages, ∀ e ∈ l.extensions,
    (r.forExtension? e = some l.withFamily ↔ lower e ∈ l.extensions)
  /-- What stands behind a slash has no dot and so no extension. -/
  byPath : ∀ l ∈ languages, ∀ t, "." ++ t ∈ l.extensions → '.' ∉ t.toList → ∀ n, IsStem n →
    (r.forPath? (n ++ ("." ++ t)) = some l.withFamily ↔
      if '/' ∈ t.toList then "" ∈ l.extensions else lower ("." ++ t) ∈ l.extensions)

theorem finds_of_build (built : build languages = .ok r) : Finds languages r := by
  have clear := unambiguous_of_build built
  obtain ⟨-, rfl⟩ := build_eq_ok_iff.mp built
  have listed {l : Language} (member : l ∈ languages) : l.withFamily ∈ languages.map (·.withFamily) :=
    List.mem_map_of_mem member
  refine ⟨fun l member => ?_, fun e => ?_, fun l member e _ => ?_, fun l member t _ single n stem => ?_⟩
  · have found := get?_id clear (listed member)
    rwa [Language.id_withFamily] at found
  · simp [mem_extensions]
  · simp [forExtension?_eq_some_iff clear, listed member]
  · rw [forPath?_stem _ stem single]
    split
    next => simp [listing?_eq_some_iff clear, listed member]
    next => simp [forExtension?_eq_some_iff clear, listed member]

/-- A registry is built just if no id and no extension occurs twice. Then each language is found by its id. By an
extension that it lists, alone or at the end of a path, it is found just if it lists the lower-case spelling as well,
and so by all extensions that are in lower case. -/
theorem build_finds (languages : List Language) :
    ((∃ r, build languages = .ok r) ↔
      (languages.map (·.id)).Nodup ∧ (languages.flatMap (·.extensions)).Nodup) ∧
    ∀ r, build languages = .ok r → Finds languages r ∧
      ∀ l ∈ languages, ∀ e ∈ l.extensions, lower e = e → r.forExtension? e = some l.withFamily := by
  refine ⟨⟨fun ⟨r, built⟩ => (build_eq_ok_iff.mp built).1, fun distinct => ⟨_, build_eq_ok_iff.mpr ⟨distinct, rfl⟩⟩⟩, ?_⟩
  intro r built
  have finds := finds_of_build built
  exact ⟨finds, fun l member e listed small => (finds.byExtension l member e listed).mpr (small.symm ▸ listed)⟩

/-- A language of statistics beside one for notes that it writes, whose extension is in lower case. -/
theorem build_finds_notes :
    let r : Language := ⟨"r", [".R", ".rmd"], ⟨"", "language"⟩, [], [], "stats"⟩
    let q : Language := ⟨"q", [".q"], ⟨"", "language"⟩, [], [], "q"⟩
    let registry : Registry := ⟨[r, q]⟩
    build [r, q] = .ok registry ∧ IsStem "notes.v2" ∧ lower ".rmd" = ".rmd" ∧
      registry.get? "r" = some r ∧ registry.forExtension? ".rmd" = some r ∧
      registry.forPath? "notes.v2.rmd" = some r := by
  intro r q registry
  have built : build [r, q] = .ok registry := rfl
  have stem : IsStem "notes.v2" := ⟨by decide, 'n', _, rfl, by decide⟩
  have small : lower ".rmd" = ".rmd" := by decide +kernel
  have listed : ".rmd" ∈ r.extensions := by decide
  obtain ⟨finds, inLowerCase⟩ := (build_finds [r, q]).2 registry built
  refine ⟨built, stem, small, finds.byId r (.head _), inLowerCase r (.head _) ".rmd" listed small, ?_⟩
  refine (finds.byPath r (.head _) "rmd" listed (by decide) "notes.v2" stem).mpr ?_
  rw [if_neg (by decide), show "." ++ "rmd" = ".rmd" from rfl, small]
  exact listed

/-- An extension with a capital is accepted and listed, and finds nothing. -/
theorem capital_extension_lost :
    let r : Language := ⟨"r", [".R"], ⟨"", "language"⟩, [], [], "r"⟩
    build [r] = .ok ⟨[r]⟩ ∧ ".R" ∈ (⟨[r]⟩ : Registry).extensions ∧
      (⟨[r]⟩ : Registry).forExtension? ".R" = none ∧ (⟨[r]⟩ : Registry).forPath? "plot.R" = none := by
  intro r
  refine ⟨rfl, by simp [mem_extensions, r], ?_, ?_⟩
  · decide +kernel
  · decide +kernel

end Registry
end ChangeLens
