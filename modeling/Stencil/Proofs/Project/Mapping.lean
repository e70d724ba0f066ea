import Stencil.Proofs.Project.Placement

/-!
# The mapping of pages to outputs

Every output lies in the directory of the output, wherever that is and whatever page is asked for.
Only for a page that climbs does the way there lead up again, by one component at its end.  Pages
below the root that have the names of pages never share an output.
-/

namespace Stencil.Project.Layout

variable {layout : Layout} {page other : Place}

/-- A page lies below the root and has the name of a page. -/
structure Owns (layout : Layout) (page : Place) : Prop where
  within : page.Within layout.root
  apart : page ≠ layout.root
  named : layout.namesPage page.toPath = true

instance (layout : Layout) (page : Place) : Decidable (layout.Owns page) :=
  decidable_of_iff (page.Within layout.root ∧ page ≠ layout.root ∧
      layout.namesPage page.toPath = true)
    ⟨fun ⟨within, apart, named⟩ => ⟨within, apart, named⟩,
      fun ⟨within, apart, named⟩ => ⟨within, apart, named⟩⟩

/-- The names that lead from the root to a page that lies below it. -/
theorem Owns.below (owns : layout.Owns page) :
    ∃ inside, inside ≠ [] ∧ page.names = layout.root.names ++ inside := by
  obtain ⟨inside, names⟩ := owns.within.2
  refine ⟨inside, ?_, names.symm⟩
  rintro rfl
  rw [List.append_nil] at names
  exact owns.apart (Place.ext owns.within.1 names.symm)

/-- What is put behind the directory of the output is added to its components. -/
theorem components_outputPath {inside : List Component} (inner : ∀ component ∈ inside, component.Inner)
    (written : layout.relativeOutput page = .ofComponents inside) :
    (layout.outputPath page).components = layout.outDir.components ++ inside := by
  have own := Path.components_ofComponents inner
  have relative := Path.isAbsolute_ofComponents inner
  have bare : .current ∉ (Path.ofComponents inside).components := by
    rw [own]
    exact fun member => inner _ member
  rw [outputPath, written, Place.components_toPath_join _ relative bare, own]

/-- A name behind names that ends with them ends with the ending of pages, in which there is no
slash. -/
theorem namesPage_of_dropSuffix? (whole : '/' ∉ layout.extension.toList) {front : List Name}
    {last : Name} {stem : String} (found : page.fileName? = some last)
    (dropped : Text.dropSuffix? (Path.ofComponents ((front ++ [last]).map .name)).text
      layout.extension = some stem) :
    layout.namesPage page.toPath = true := by
  obtain ⟨directory, ends, written⟩ := Path.joined_piecesOf_concat front
  have both := Text.dropSuffix?_eq_some_iff.mp dropped
  rw [Path.ofComponents_names, written, ← String.toList_inj, String.toList_ofList,
    String.toList_append] at both
  refine namesPage_toPath.mpr ⟨last, found, ?_⟩
  rcases List.append_eq_append_iff.mp both with ⟨rest, stems, ending⟩ | ⟨rest, above, ending⟩
  · exact ⟨String.ofList rest, by rw [← String.toList_inj, ending]; simp⟩
  · -- The ending begins in the directory, which ends with a slash.
    rcases List.eq_nil_or_concat rest with rfl | ⟨before, c, rfl⟩
    · exact ⟨"", by rw [← String.toList_inj, String.empty_append, ending, List.nil_append]⟩
    · rcases ends with rfl | ends
      · simp at above
      · rw [above, List.concat_eq_append, ← List.append_assoc, List.getLast?_concat] at ends
        obtain rfl := Option.some.inj ends
        exact absurd (by simp [ending]) whole

/-- The output of a page that climbs is the directory above. -/
theorem Climbs.relativeOutput (climbs : layout.Climbs page) (absolute : layout.root.Absolute)
    (pageAbsolute : page.Absolute) (whole : '/' ∉ layout.extension.toList) :
    ∃ names : List Name, layout.relativeOutput page =
      .ofComponents (names.map .name ++ [.parent]) := by
  obtain ⟨names, path, ends⟩ := exists_names_relativePath absolute pageAbsolute
  obtain ⟨last, named, dotted⟩ := climbs.dotted
  rw [if_neg climbs.apart, named] at ends
  obtain ⟨front, rfl⟩ := List.getLast?_eq_some_iff.mp ends
  rw [Layout.relativeOutput, path]
  split
  next stem dropped =>
    have unnamed := climbs.unnamed
    rw [namesPage_of_dropSuffix? whole named dropped] at unnamed
    cases unnamed
  · obtain ⟨html, replaced⟩ := Path.withExtension_names front last
    exact ⟨front, by rw [replaced, if_pos dotted]⟩

/-- Every output lies in the directory of the output, and the way there leads up again for a page
that climbs only. -/
theorem exists_inside (absolute : layout.root.Absolute) (whole : '/' ∉ layout.extension.toList)
    (pageAbsolute : page.Absolute) :
    ∃ inside, (layout.outputPath page).components = layout.outDir.components ++ inside ∧
      (.parent ∈ inside ↔ layout.Climbs page) := by
  by_cases climbs : layout.Climbs page
  · obtain ⟨names, written⟩ := climbs.relativeOutput absolute pageAbsolute whole
    exact ⟨_, components_outputPath (@Component.inner_concat names .parent trivial) written,
      by simp [climbs]⟩
  · rcases relativeOutput_shape absolute pageAbsolute with ⟨names, last, inner, up, written⟩ | bare
    · refine ⟨_, components_outputPath (Component.inner_concat names inner) written, ?_⟩
      have stays : last ≠ .parent := mt up climbs
      simp [climbs, stays.symm]
    · exact ⟨[], components_outputPath nofun bare, by simp [climbs]⟩

/-- Pages below the root that have the names of pages share no output. -/
theorem Owns.ext (owns : layout.Owns page) (also : layout.Owns other)
    (absolute : layout.root.Absolute)
    (same : (layout.outputPath page).components = (layout.outputPath other).components) :
    page = other := by
  have pageAbsolute : page.Absolute := owns.within.1.trans absolute
  have otherAbsolute : other.Absolute := also.within.1.trans absolute
  obtain ⟨inside, nonempty, names⟩ := owns.below
  obtain ⟨inside', nonempty', names'⟩ := also.below
  obtain ⟨front, last, html, stem, rfl, ends, ending, written⟩ :=
    relativeOutput_below absolute pageAbsolute nonempty names owns.named
  obtain ⟨front', last', html', stem', rfl, ends', ending', written'⟩ :=
    relativeOutput_below absolute otherAbsolute nonempty' names' also.named
  rw [components_outputPath (Component.inner_names _) written,
    components_outputPath (Component.inner_names _) written'] at same
  have outputs := (List.map_inj_right fun _ _ => Component.name.inj).mp (List.append_cancel_left same)
  have inside := names_of_output ends ends' ending ending' outputs
  exact pageAbsolute.ext otherAbsolute (by rw [names, names', inside])

/-- Every output lies in the directory of the output, and the way there leads up again for pages that
climb only.  Pages below the root that have the names of pages share no output. -/
theorem outputPath_confined (absolute : layout.root.Absolute)
    (whole : '/' ∉ layout.extension.toList) :
    (∀ source, ∃ inside,
        (layout.outputPath (layout.resolve source)).components =
          layout.outDir.components ++ inside ∧
        (.parent ∈ inside ↔ layout.Climbs (layout.resolve source))) ∧
      ∀ first second, layout.Owns (layout.resolve first) → layout.Owns (layout.resolve second) →
        (layout.outputPath (layout.resolve first)).components =
          (layout.outputPath (layout.resolve second)).components →
        layout.resolve first = layout.resolve second :=
  ⟨fun source => exists_inside absolute whole (absolute.resolve source),
    fun _ _ owns also same => owns.ext also absolute same⟩

/-- A project whose output does not go below its root. -/
def elsewhere : Layout where
  root := .ofPath ⟨"/r"⟩
  outDir := .ofPath ⟨"/o"⟩
  extension := ".p"
  scanDepth := 1
  exclude := []
  dialect := {}
  room := 16

/-- A page in two spellings has one output, and is the only page with it.  The output of a page
outside of the root lies in the directory of the output as well. -/
theorem outputPath_confined_spelled :
    elsewhere.root.Absolute ∧ '/' ∉ elsewhere.extension.toList ∧
      elsewhere.resolve ⟨"/r//d/../..b.p"⟩ = elsewhere.resolve ⟨"./..b.p"⟩ ∧
      ∃ inside, (elsewhere.outputPath (elsewhere.resolve ⟨"../q/..b.p"⟩)).components =
        elsewhere.outDir.components ++ inside ∧ .parent ∉ inside := by
  have absolute : elsewhere.root.Absolute := by decide +kernel
  have whole : '/' ∉ elsewhere.extension.toList := by decide
  obtain ⟨confined, injective⟩ := outputPath_confined absolute whole
  refine ⟨absolute, whole, ?_, ?_⟩
  · exact injective _ _ (by decide +kernel) (by decide +kernel) (by decide +kernel)
  · obtain ⟨inside, components, up⟩ := confined ⟨"../q/..b.p"⟩
    have named : elsewhere.namesPage (elsewhere.resolve ⟨"../q/..b.p"⟩).toPath = true := by
      decide +kernel
    refine ⟨inside, components, fun member => ?_⟩
    rw [(up.mp member).unnamed] at named
    cases named

/-- The output of a page with two dots at the beginning of its name is no entry of the directory of
the output. -/
theorem exists_climbing : elsewhere.root.Absolute ∧ elsewhere.extension ≠ "" ∧
    '/' ∉ elsewhere.extension.toList ∧
    (elsewhere.outputPath (elsewhere.resolve ⟨"..a"⟩)).components =
      elsewhere.outDir.components ++ [.parent] := by
  decide +kernel

end Stencil.Project.Layout
