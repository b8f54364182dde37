import ChangeLens.Proofs.Keyed
import ChangeLens.Proofs.Language.Lookup

/-! The extension of a path and the family that it leads to. The extension by which a language is chosen and the one at
which a path is cut are the same up to case, and both ways to the family of a path lead to the same one. -/
namespace ChangeLens

def familyTable : Keyed String :=
  .ofList (Catalog.languages.flatMap fun l => l.extensions.map fun e => (e, l.family))

theorem standardFamily_eq_find? (e : String) : standardFamily e = (familyTable.find? e).getD "" := by
  have clear := Registry.unambiguous_standard
  have keys : (Catalog.languages.flatMap fun l => l.extensions.map fun e => (e, l.family)).map (·.1) =
      Catalog.languages.flatMap (·.extensions) := by
    simp [List.map_flatMap, Function.comp_def]
  rw [standardFamily]
  cases listed : Registry.standard.listing? e with
  | none =>
    have unlisted : e ∉ Catalog.languages.flatMap (·.extensions) := fun member => by
      obtain ⟨l, known, lists⟩ := List.mem_flatMap.mp member
      rw [(Registry.listing?_eq_some_iff clear).mpr ⟨known, lists⟩] at listed
      contradiction
    rw [familyTable, Keyed.find?_ofList_eq_none_iff.mpr (keys ▸ unlisted)]
    rfl
  | some l =>
    obtain ⟨known, lists⟩ := (Registry.listing?_eq_some_iff clear).mp listed
    have entry : (e, l.family) ∈ familyTable.entries := by
      rw [familyTable, Keyed.entries_ofList (keys ▸ clear.extensions)]
      exact List.mem_flatMap.mpr ⟨l, known, List.mem_map_of_mem lists⟩
    have distinct : familyTable.keys.Nodup := Keyed.nodup_keys_ofList _
    rw [(Keyed.mem_entries_iff distinct).mp entry]
    rfl

/-- A path has the extension at which it is cut, in lower case, and that is the part behind the last dot of its last
segment, if something other than dots stands before that. The family to which the languages known from the start assign
this extension is the family of the language that their registry finds for the path. -/
theorem extension_and_family_agree (path : String) :
    Path.extension path = Text.lower (Path.splitExtension path).2 ∧
    (∀ root ext, Path.splitExtension path = (root, ext) ↔ Path.SplitsInto path root ext) ∧
    Registry.build Catalog.languages = .ok Registry.standard ∧
    standardFamily (Path.extension path) = (familyTable.find? (Path.extension path)).getD "" ∧
    standardFamily (Path.extension path) = ((Registry.standard.forPath? path).map (·.family)).getD "" := by
  refine ⟨Path.extension_eq path, fun root ext => Path.splitExtension_eq_iff, Registry.build_standard,
    standardFamily_eq_find? _, ?_⟩
  have small : Text.lower (Path.extension path) = Path.extension path := by
    rw [Path.extension_eq, Text.lower_lower]
  rw [Registry.forPath?, Registry.forExtension?, small, standardFamily]

end ChangeLens
