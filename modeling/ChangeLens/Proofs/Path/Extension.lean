import ChangeLens.Proofs.Path.Segments
import ChangeLens.Proofs.Text.Lowercase

/-! Paths cut before their extension. What is left keeps the directories, and its last segment is still the name
of a file. What counts as an extension is the same where a path is cut and where a language is chosen for it. -/
namespace ChangeLens.Path

open Text

/-- The last segment can be exchanged for another without a change to the directories. -/
theorem lastSegment_cases (path : String) : ∃ head, path.toList = head ++ lastSegment path.toList ∧
    '/' ∉ lastSegment path.toList ∧
    ∀ name, '/' ∉ name → segments (.ofList (head ++ name)) = directories path ++ [.ofList name] := by
  rcases segments_cases path with ⟨bare, single⟩ | ⟨before, last, split, fresh, cut⟩
  · refine ⟨[], ?_, ?_, fun name flat => ?_⟩
    · simp [lastSegment, cutLast_of_notMem bare]
    · simpa [lastSegment, cutLast_of_notMem bare] using bare
    · rw [directories, single]
      simp [segments, splitAt, List.splitOn_eq_singleton flat]
  · have name : lastSegment path.toList = last := by rw [lastSegment, split, cutLast_append before fresh]
    refine ⟨before ++ ['/'], by rw [name, split, List.append_cons], name ▸ fresh, fun other flat => ?_⟩
    rw [directories, cut, List.dropLast_concat]
    simp [segments, splitAt, List.splitOn_append_cons_self, List.splitOn_eq_singleton flat]

/-- A path without extension, or one whose extension follows a name that is not made of dots alone. -/
theorem splitExtension_cases (path : String) : splitExtension path = (path, "") ∨
    ∃ head stem ext, path.toList = head ++ (stem ++ '.' :: ext) ∧
      splitExtension path = (.ofList (head ++ stem), .ofList ('.' :: ext)) ∧
      '/' ∉ stem ∧ (∃ c ∈ stem, c ≠ '.') ∧
      segments (.ofList (head ++ stem)) = directories path ++ [.ofList stem] ∧
      segments path = directories path ++ [.ofList (stem ++ '.' :: ext)] := by
  obtain ⟨head, split, flat, exchange⟩ := lastSegment_cases path
  rcases cutLast_cases '.' (lastSegment path.toList) with none | ⟨stem, ext, cut, fresh⟩
  · exact .inl (by simp only [splitExtension, cutLast_of_notMem none])
  · rw [splitExtension, cut, cutLast_append stem fresh]
    by_cases hidden : stem.all (· == '.') = true
    · exact .inl (by simp [hidden])
    · have stemFlat : '/' ∉ stem := fun member => flat (cut ▸ List.mem_append_left _ member)
      have shorter : path.toList.take (path.toList.length - ext.length - 1) = head ++ stem := by
        rw [split, cut, ← List.append_assoc]
        refine List.take_left' ?_
        simp only [List.length_append, List.length_cons]
        omega
      have whole : segments path = directories path ++ [.ofList (stem ++ '.' :: ext)] := by
        have same := exchange _ flat
        rwa [← split, String.ofList_toList, cut] at same
      refine .inr ⟨head, stem, ext, by rw [← cut, ← split], by simp [hidden, shorter], stemFlat, ?_,
        exchange stem stemFlat, whole⟩
      simpa using hidden

theorem isName_ofList {cs : List Char} (flat : '/' ∉ cs) (visible : ∃ c ∈ cs, c ≠ '.') : IsName (.ofList cs) := by
  have other {s : String} (dots : ∀ c ∈ s.toList, c = '.') : String.ofList cs ≠ s := by
    rintro rfl
    obtain ⟨c, member, differs⟩ := visible
    exact differs (dots c (String.toList_ofList ▸ member))
  exact ⟨⟨by simpa using flat, other (by simp)⟩, other (by simp), other (by simp)⟩

theorem splitExtension_append (path : String) : (splitExtension path).1 ++ (splitExtension path).2 = path := by
  rcases splitExtension_cases path with none | ⟨head, stem, ext, split, cut, -⟩
  · simp [none]
  · rw [cut, ← String.ofList_append, List.append_assoc, ← split, String.ofList_toList]

/-- Where there is an extension to drop, the rest is the path of a file in the same directories. -/
theorem segments_stem {path : String} (extended : (splitExtension path).2 ≠ "") :
    ∃ stem, IsName stem ∧ segments (splitExtension path).1 = directories path ++ [stem] ∧
      segments path = directories path ++ [stem ++ (splitExtension path).2] := by
  rcases splitExtension_cases path with none | ⟨head, stem, ext, -, cut, flat, visible, kept, whole⟩
  · exact absurd (congrArg Prod.snd none) extended
  · refine ⟨.ofList stem, isName_ofList flat visible, by rw [cut, kept], ?_⟩
    rw [whole, cut, String.ofList_append]

/-- Behind `root` an extension begins: a dot that neither a dot nor a slash follows, and before it something other than
a dot in the same segment. -/
structure IsExtension (root ext : String) : Prop where
  dotted : ∃ t, ext = "." ++ t ∧ '.' ∉ t.toList ∧ '/' ∉ t.toList
  named : ∃ before c behind, root.toList = before ++ c :: behind ∧ c ≠ '.' ∧ '/' ∉ c :: behind

def Extensionless (path : String) : Prop := ∀ root ext, root ++ ext = path → ¬IsExtension root ext

theorem lastSegment_append (cs : List Char) {tail : List Char} (flat : '/' ∉ tail) :
    lastSegment (cs ++ tail) = lastSegment cs ++ tail := by
  rcases cutLast_cases '/' cs with bare | ⟨before, last, rfl, fresh⟩
  · simp [lastSegment, cutLast_of_notMem, bare, flat]
  · have whole : '/' ∉ last ++ tail := by simp [fresh, flat]
    rw [List.append_assoc, List.cons_append, lastSegment, lastSegment, cutLast_append before whole,
      cutLast_append before fresh]

theorem mem_lastSegment_iff {c : Char} {cs : List Char} :
    c ∈ lastSegment cs ↔ ∃ before behind, cs = before ++ c :: behind ∧ '/' ∉ c :: behind := by
  constructor
  · intro member
    obtain ⟨head, split, flat, -⟩ := lastSegment_cases (.ofList cs)
    rw [String.toList_ofList] at split flat
    obtain ⟨before, behind, cut⟩ := List.append_of_mem member
    refine ⟨head ++ before, behind, ?_, fun slash => flat ?_⟩
    · rw [List.append_assoc, ← cut, ← split]
    · rw [cut]
      exact List.mem_append_right before slash
  · rintro ⟨before, behind, rfl, flat⟩
    rw [lastSegment_append before flat]
    exact List.mem_append_right _ (.head _)

variable {root ext path : String}

/-- The name of a file with an extension. -/
theorem IsExtension.lastSegment_eq (is : IsExtension root ext) : ∃ t, ext.toList = '.' :: t ∧ '.' ∉ t ∧
    (∃ c ∈ lastSegment root.toList, c ≠ '.') ∧
    lastSegment (root ++ ext).toList = lastSegment root.toList ++ '.' :: t := by
  obtain ⟨⟨t, rfl, single, flat⟩, before, c, behind, split, other, inside⟩ := is
  have chars : ("." ++ t).toList = '.' :: t.toList := by simp
  refine ⟨t.toList, chars, single, ⟨c, mem_lastSegment_iff.mpr ⟨before, behind, split, inside⟩, other⟩, ?_⟩
  rw [String.toList_append, chars, lastSegment_append _ (by simp [flat])]

theorem IsExtension.splitExtension_eq (is : IsExtension root ext) : splitExtension (root ++ ext) = (root, ext) := by
  obtain ⟨t, chars, single, ⟨c, member, other⟩, name⟩ := is.lastSegment_eq
  have hidden : (lastSegment root.toList).all (· == '.') = false := by
    simpa using ⟨c, member, other⟩
  have shorter : (root ++ ext).toList.take ((root ++ ext).toList.length - t.length - 1) = root.toList := by
    rw [String.toList_append, chars]
    refine List.take_left' ?_
    simp only [List.length_append, List.length_cons]
    omega
  simp only [splitExtension, name, cutLast_append _ single, hidden, shorter]
  simp [← chars]

theorem IsExtension.extension_eq (is : IsExtension root ext) : extension (root ++ ext) = lower ext := by
  obtain ⟨t, chars, single, ⟨c, member, other⟩, name⟩ := is.lastSegment_eq
  have shown : '.' ∈ visible (lastSegment root.toList ++ '.' :: t) := by
    have kept : ((lastSegment root.toList).dropWhile (· == '.')) ≠ [] := by
      simpa [List.dropWhile_eq_nil_iff] using ⟨c, member, other⟩
    rw [visible, List.dropWhile_append]
    simp [kept]
  have written : ext = "." ++ .ofList t := String.toList_injective (by simp [chars])
  rw [extension, name, if_pos (by simpa using shown), cutLast_append _ single, written, lower_dot]

theorem extensionless_of_splitExtension (bare : (splitExtension path).2 = "") : Extensionless path := by
  rintro root ext rfl is
  rw [is.splitExtension_eq] at bare
  obtain ⟨t, rfl, -⟩ := is.dotted
  simp at bare

/-- Either there is no extension, and none is found, or there is one. -/
theorem extension_cases (path : String) :
    ((splitExtension path).2 = "" ∧ extension path = "") ∨ ∃ root ext, root ++ ext = path ∧ IsExtension root ext := by
  obtain ⟨head, split, flat, -⟩ := lastSegment_cases path
  rcases cutLast_cases '.' (lastSegment path.toList) with none | ⟨stem, t, cut, single⟩
  · have hidden : '.' ∉ visible (lastSegment path.toList) := fun shown =>
      none ((List.dropWhile_sublist _).subset shown)
    exact .inl (by simp [splitExtension, extension, cutLast_of_notMem none, hidden])
  · by_cases dots : stem.all (· == '.') = true
    · have hidden : '.' ∉ visible (lastSegment path.toList) := by
        rw [cut, visible, List.dropWhile_append_of_pos (by simpa using dots), List.dropWhile_cons_of_pos (by simp)]
        exact fun shown => single ((List.dropWhile_sublist _).subset shown)
      have stays : (splitExtension path).2 = "" := by simp [splitExtension, cut, cutLast_append stem single, dots]
      exact .inl ⟨stays, by simp [extension, hidden]⟩
    · obtain ⟨c, member, other⟩ : ∃ c ∈ stem, c ≠ '.' := by simpa using dots
      obtain ⟨before, behind, inner⟩ := List.append_of_mem member
      have whole : path.toList = head ++ (stem ++ '.' :: t) := by rw [← cut, ← split]
      rw [cut] at flat
      refine .inr ⟨.ofList (head ++ stem), "." ++ .ofList t, String.toList_injective (by simp [whole]), ?_, ?_⟩
      · exact ⟨.ofList t, rfl, by simpa using single, fun slash => flat (by simp at slash; simp [slash])⟩
      · refine ⟨head ++ before, c, behind, by simp [inner], other, fun slash => flat ?_⟩
        rw [inner]
        exact List.mem_append_left _ (List.mem_append_right _ slash)

/-- The extension by which a language is chosen is the one at which a path is cut, in lower case. -/
theorem extension_eq (path : String) : extension path = lower (splitExtension path).2 := by
  rcases extension_cases path with ⟨bare, none⟩ | ⟨root, ext, rfl, is⟩
  · rw [bare, none]
    rfl
  · rw [is.extension_eq, is.splitExtension_eq]

/-- A path is cut where its extension begins, and nowhere if it has none. -/
structure SplitsInto (path root ext : String) : Prop where
  whole : root ++ ext = path
  cut : IsExtension root ext ∨ ext = "" ∧ Extensionless path

theorem splitExtension_eq_iff : splitExtension path = (root, ext) ↔ SplitsInto path root ext := by
  have joined := splitExtension_append path
  constructor
  · intro split
    rw [split] at joined
    refine ⟨joined, ?_⟩
    rcases extension_cases path with ⟨bare, -⟩ | ⟨r, e, rfl, is⟩
    · exact .inr ⟨by rw [← bare, split], extensionless_of_splitExtension bare⟩
    · rw [is.splitExtension_eq] at split
      obtain ⟨rfl, rfl⟩ := Prod.mk.inj split
      exact .inl is
  · rintro ⟨rfl, is | ⟨rfl, none⟩⟩
    · exact is.splitExtension_eq
    · rcases extension_cases (root ++ "") with ⟨bare, -⟩ | ⟨r, e, whole, is⟩
      · rw [bare, String.append_empty, String.append_empty] at joined
        exact Prod.ext (by simpa using joined) bare
      · exact absurd is (none r e whole)

end ChangeLens.Path
