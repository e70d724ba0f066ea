import Stencil.Project.Layout
import Stencil.Proofs.Path.Normal

/-!
# Resolving a path again

A relative path is resolved by following its components from a place, an absolute one leads to the
same place from everywhere.  So a path that was resolved against an absolute root leads to the same
place when it is resolved again.  A relative root is followed a second time then, and only a root
that leads up as many levels as it leads down again brings such a path back.
-/

namespace Stencil

namespace Place

variable {place : Place} {path : Path}

/-- A relative path is followed from the place that it is resolved against. -/
theorem resolve_relative (place : Place) (relative : path.isAbsolute = false) :
    place.resolve path = path.components.foldl follow place := by
  rw [resolve, ofPath_join relative, ofPath_toPath]

/-- Going up from a relative place takes its names away first, and leads above its anchor then. -/
theorem foldl_follow_parents_above (levels more : Nat) (names : List Name) :
    (List.replicate more Component.parent).foldl follow ⟨.above levels, names⟩ =
      ⟨.above (levels + (more - names.length)), names.take (names.length - more)⟩ := by
  induction more generalizing levels names with
  | zero => simp
  | succ more ih =>
      rw [List.replicate_succ, List.foldl_cons]
      rcases List.eq_nil_or_concat names with rfl | ⟨front, last, rfl⟩
      · have onward := ih (levels + 1) []
        have up : (Place.mk (.above levels) []).follow .parent = ⟨.above (levels + 1), []⟩ := rfl
        rw [up, onward]
        simp
        omega
      · have up : (Place.mk (.above levels) (front.concat last)).follow .parent =
            ⟨.above levels, front⟩ := by
          rw [List.concat_eq_append]
          exact up_child ⟨.above levels, front⟩ last
        have shorter : front.length - more ≤ front.length := Nat.sub_le _ _
        rw [up, ih, List.concat_eq_append, List.length_append, List.length_singleton,
          Nat.add_sub_add_right, Nat.add_sub_add_right, List.take_append_of_le_length shorter]

/-- A relative place leads up as many levels as it leads down again. -/
def Balanced (place : Place) : Prop :=
  place.anchor = .above place.names.length

instance (place : Place) : Decidable place.Balanced :=
  inferInstanceAs (Decidable (_ = _))

/-- A relative path that was resolved against a relative place leads there again from the same place
just when that place is balanced. -/
theorem resolve_again_iff_balanced {levels : Nat} (above : place.anchor = .above levels)
    (relative : path.isAbsolute = false) :
    place.resolve (place.resolve path).toPath = place.resolve path ↔ place.Balanced := by
  obtain ⟨_, names⟩ := place
  obtain rfl := above
  obtain ⟨more, deeper, anchor⟩ :=
    anchor_foldl_follow (Path.root_not_mem_components relative) levels names
  rw [← resolve_relative _ relative] at anchor
  -- What was resolved leads up at least as far as the place does.
  generalize (Place.mk (.above levels) names).resolve path = reached at anchor ⊢
  obtain ⟨_, inside⟩ := reached
  obtain rfl := anchor
  have outside : (Place.mk (.above more) inside).toPath.isAbsolute = false :=
    Path.isAbsolute_ofComponents (inner_components more inside)
  rw [resolve_relative _ outside, components_toPath, components, anchorComponents,
    List.foldl_append, foldl_follow_parents_above, foldl_follow_names, Place.mk.injEq,
    Anchor.above.injEq, List.append_left_eq_self, List.take_eq_nil_iff, Balanced,
    Anchor.above.injEq]
  constructor
  · rintro ⟨same, nothing⟩
    have empty : names.length - more = 0 := by
      rcases nothing with zero | rfl
      · exact zero
      · exact Nat.zero_sub more
    dsimp only
    omega
  · intro balanced
    dsimp only at balanced
    omega

/-- Resolving a path again changes nothing just when the place that it is resolved against is
absolute or balanced, or the path is absolute itself. -/
theorem resolve_again_iff :
    place.resolve (place.resolve path).toPath = place.resolve path ↔
      place.Absolute ∨ path.isAbsolute = true ∨ place.Balanced := by
  cases rooted : path.isAbsolute with
  | true =>
      have absolute : (place.resolve path).Absolute := by
        rw [resolve, Path.join, if_pos rooted]
        exact absolute_ofPath rooted
      exact iff_of_true (resolve_toPath place absolute) (.inr (.inl rfl))
  | false =>
      cases anchor : place.anchor with
      | root =>
          have absolute : place.Absolute := anchor
          exact iff_of_true (resolve_toPath place (absolute.resolve path)) (.inl absolute)
      | above levels =>
          have relative : ¬ place.Absolute := by
            intro absolute
            cases anchor.symm.trans absolute
          simpa [relative] using resolve_again_iff_balanced anchor rooted

end Place

end Stencil

namespace Stencil.Project.Layout

/-- A path that was resolved against the root of a project leads to the same place when it is
resolved again, unless the root and the path are relative and the root does not lead down again as
many levels as it leads up. -/
theorem resolve_resolve_iff (layout : Layout) (path : Path) :
    layout.resolve (layout.resolve path).toPath = layout.resolve path ↔
      layout.root.Absolute ∨ path.isAbsolute = true ∨ layout.root.Balanced :=
  Place.resolve_again_iff

/-- A project in a directory that is named from the one that relative paths start from. -/
def nearby : Layout where
  root := .ofPath ⟨"site"⟩
  outDir := .ofPath ⟨"site/dist"⟩
  extension := ".haste.html"
  scanDepth := 5
  exclude := []
  dialect := {}
  room := 16

/-- Each time a page of such a project is resolved, it is looked for one directory further down.  So
a build writes it to another file than its output. -/
theorem exists_drifting :
    (nearby.resolve ⟨"a.haste.html"⟩).text = "site/a.haste.html" ∧
      (nearby.resolve (nearby.resolve ⟨"a.haste.html"⟩).toPath).text = "site/site/a.haste.html" ∧
      nearby.resolve (nearby.resolve ⟨"a.haste.html"⟩).toPath ≠ nearby.resolve ⟨"a.haste.html"⟩ ∧
      (nearby.outputPath (nearby.resolve ⟨"a.haste.html"⟩)).text = "site/dist/a.html" ∧
      (nearby.destination (nearby.resolve ⟨"a.haste.html"⟩)).text = "site/dist/site/a.html" := by
  decide +kernel

end Stencil.Project.Layout
