import Stencil.Text.Search

/-!
# Beginnings and endings of texts

A text without a known beginning or ending is found exactly when the text has it.
-/

namespace Stencil.Text

section Lists

variable {α : Type} [BEq α] [LawfulBEq α] {source start ending rest : List α}

omit [LawfulBEq α] in
theorem nil_isPrefixOf? : ([] : List α).isPrefixOf? source = some source := by
  cases source <;> rfl

omit [LawfulBEq α] in
theorem cons_isPrefixOf?_cons {first c : α} : (first :: start).isPrefixOf? (c :: source) =
    if first == c then start.isPrefixOf? source else none := by
  rfl

theorem isPrefixOf?_eq_some_iff : start.isPrefixOf? source = some rest ↔ source = start ++ rest := by
  induction start generalizing source with
  | nil =>
      rw [nil_isPrefixOf?, Option.some_inj]
      rfl
  | cons first start ih =>
      cases source with
      | nil =>
          constructor
          · intro found
            cases found
          · intro whole
            cases whole
      | cons c source =>
          rw [cons_isPrefixOf?_cons]
          by_cases same : first = c
          · simp [same, ih]
          · simp [same, Ne.symm same]

theorem isSuffixOf?_eq_some_iff :
    ending.isSuffixOf? source = some rest ↔ source = rest ++ ending := by
  have reversed : ending.isSuffixOf? source =
      (ending.reverse.isPrefixOf? source.reverse).map List.reverse := by rfl
  rw [reversed, Option.map_eq_some_iff]
  constructor
  · rintro ⟨reversed, found, rfl⟩
    have := congrArg List.reverse (isPrefixOf?_eq_some_iff.mp found)
    simpa using this
  · rintro rfl
    exact ⟨rest.reverse, isPrefixOf?_eq_some_iff.mpr (by simp), by simp⟩

omit [BEq α] [LawfulBEq α] in
/-- No offset passes a test that no ending of the text passes. -/
theorem offset?_eq_none_iff {test : List α → Bool} :
    offset? test source = none ↔ ∀ rest, rest <:+ source → test rest = false := by
  unfold offset?
  generalize 0 = offset
  induction source generalizing offset with
  | nil =>
      cases tested : test [] <;> simp [offsetFrom?, tested]
  | cons first source ih =>
      simp only [offsetFrom?, List.suffix_cons_iff, forall_eq_or_imp]
      cases tested : test (first :: source) with
      | true => simp
      | false => simpa using ih (offset + 1)

/-- A marker is not found in a text that it is no part of. -/
theorem offset?_isPrefixOf_eq_none_iff {marker : List α} :
    offset? (marker.isPrefixOf ·) source = none ↔ ¬ marker <:+: source := by
  simp only [offset?_eq_none_iff, List.infix_iff_prefix_suffix, ← List.isPrefixOf_iff_prefix,
    not_exists, not_and]
  constructor
  · exact fun absent rest stands inside => absurd stands (by simp [absent rest inside])
  · intro absent rest inside
    cases stands : marker.isPrefixOf rest with
    | false => rfl
    | true => exact absurd inside (absent rest stands)

end Lists

variable {source start ending rest : String}

theorem dropPrefix?_eq_some_iff : dropPrefix? source start = some rest ↔ source = start ++ rest := by
  simp only [dropPrefix?, Option.map_eq_some_iff, isPrefixOf?_eq_some_iff]
  constructor
  · rintro ⟨chars, whole, rfl⟩
    rw [← String.toList_inj, whole, String.toList_append, String.toList_ofList]
  · rintro rfl
    exact ⟨rest.toList, by simp, by simp⟩

theorem dropSuffix?_eq_some_iff :
    dropSuffix? source ending = some rest ↔ source = rest ++ ending := by
  simp only [dropSuffix?, Option.map_eq_some_iff, isSuffixOf?_eq_some_iff]
  constructor
  · rintro ⟨chars, whole, rfl⟩
    rw [← String.toList_inj, whole, String.toList_append, String.toList_ofList]
  · rintro rfl
    exact ⟨rest.toList, by simp, by simp⟩

end Stencil.Text
