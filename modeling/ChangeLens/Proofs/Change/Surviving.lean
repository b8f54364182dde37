import ChangeLens.Proofs.Change.EditScript
import ChangeLens.Proofs.Extraction.Unplaced

/-! The declarations that count in a version. Their lines do not matter to it, and neither does their order if no name
is declared twice. -/
namespace ChangeLens.Declaration

variable {ds es : List Declaration} {name : String} {d : Declaration}

theorem textOf_unplaced (ds : List Declaration) : textOf (ds.map unplaced) = textOf ds := by
  funext name
  simp [textOf, surviving?, ← List.map_reverse, List.find?_map, Function.comp_def]

theorem entries_byName (distinct : (ds.map (·.name)).Nodup) : (byName ds).entries = ds.map fun d => (d.name, d) :=
  Keyed.entries_ofList (by simpa [Function.comp_def] using distinct)

/-- If no name is declared twice, each declaration counts for its name. -/
theorem surviving?_eq_some_iff (distinct : (ds.map (·.name)).Nodup) :
    surviving? ds name = some d ↔ d ∈ ds ∧ d.name = name := by
  rw [← mem_byName, entries_byName distinct, List.mem_map]
  simp only [Prod.mk.injEq]
  constructor
  · rintro ⟨d, member, rfl, rfl⟩
    exact ⟨member, rfl⟩
  · rintro ⟨member, rfl⟩
    exact ⟨d, member, rfl, rfl⟩

theorem surviving?_perm (same : ds.Perm es) (distinct : (ds.map (·.name)).Nodup) : surviving? ds = surviving? es := by
  have others : (es.map (·.name)).Nodup := (same.map (·.name)).nodup_iff.mp distinct
  funext name
  ext d
  rw [surviving?_eq_some_iff distinct, surviving?_eq_some_iff others, same.mem_iff]

theorem textOf_perm (same : ds.Perm es) (distinct : (ds.map (·.name)).Nodup) : textOf ds = textOf es := by
  funext name
  rw [textOf, textOf, surviving?_perm same distinct]

/-- Versions whose declarations agree up to their order and their lines give each name the same text. -/
theorem textOf_eq_of_perm_unplaced (same : (ds.map unplaced).Perm (es.map unplaced))
    (distinct : (ds.map (·.name)).Nodup) : textOf ds = textOf es := by
  rw [← textOf_unplaced ds, ← textOf_unplaced es]
  exact textOf_perm same (by simpa [Function.comp_def] using distinct)

end ChangeLens.Declaration
