import Stencil.Project.Layout
import Stencil.Proofs.Path.Places
import Stencil.Proofs.Text.Affixes

/-!
# Outputs of pages

The output of a page below the root lies in the directory of the output, under the names that lead
from the root to the page.  Only the ending of the last name is another one, so different pages have
different outputs.
-/

namespace Stencil.Project.Layout

/-- All questions about a layout are about absolute places. -/
structure Absolute (layout : Layout) : Prop where
  root : layout.root.Absolute
  outDir : layout.outDir.Absolute

/-- A page of a layout lies below its root, but not in the directory of the output. -/
structure Hosts (layout : Layout) (page : Place) : Prop where
  absolute : page.Absolute
  below : ∃ inside, inside ≠ [] ∧ page.names = layout.root.names ++ inside
  named : layout.namesPage page.toPath = true
  included : layout.excludes page.toPath = false
  apart : ¬page.Within layout.outDir

/-- A location lies outside of the directory of the output. -/
def Outside (layout : Layout) (location : List Name) : Prop :=
  ¬layout.outDir.names <+: location

/-- The place of the output of a page. -/
def output (layout : Layout) (page : Place) : Place :=
  .ofPath (layout.outputPath page)

/-- The settings of a project with an absolute root describe an absolute layout. -/
theorem absolute_ofSettings {room : Nat} {root : Place} {settings : Settings}
    {layout : Layout} (absolute : root.Absolute) (read : ofSettings room root settings = .ok layout) :
    layout.Absolute := by
  unfold ofSettings at read
  cases found : patterns settings.build.exclude with
  | error fault =>
      rw [found] at read
      cases read
  | ok exclude =>
      rw [found] at read
      cases read
      exact ⟨absolute, absolute.resolve _⟩

variable {layout : Layout} {page : Place}

/-- A build of an absolute page writes the output of the page. -/
theorem destination_eq (absolute : page.Absolute) : layout.destination page = layout.outputPath page := by
  rw [destination, resolve, Place.resolve_toPath _ absolute]

theorem Absolute.withOutDir (absolute : layout.Absolute) (path : Path) :
    (layout.withOutDir path).Absolute :=
  ⟨absolute.root, absolute.root.resolve path⟩

/-- The name of an output file. -/
theorem exists_name_html {stem : String} (noSlash : '/' ∉ stem.toList) :
    ∃ html : Name, html.text = stem ++ "." ++ outputExtension := by
  have long : 5 ≤ (stem ++ "." ++ outputExtension).toList.length := by
    simp [outputExtension]
  refine ⟨⟨stem ++ "." ++ outputExtension, ?_, ?_, ?_, ?_⟩, rfl⟩
  · intro same
    simp [same] at long
  · intro same
    simp [same] at long
  · intro same
    simp [same] at long
  · simp [outputExtension, noSlash]

/-- A page has the name of one when the name at its end has the ending. -/
theorem namesPage_toPath : layout.namesPage page.toPath = true ↔
    ∃ name, page.fileName? = some name ∧ ∃ stem, name.text = stem ++ layout.extension := by
  have named : page.toPath.fileName? = page.fileName? := by
    rcases page with ⟨anchor, names⟩
    rw [Path.fileName?, Place.components_toPath, Place.components, Place.fileName?]
    rcases List.eq_nil_or_concat names with rfl | ⟨front, last, rfl⟩
    · cases anchor with
      | root => rfl
      | above levels => cases levels <;> simp [Place.anchorComponents, List.getLast?_replicate]
    · simp [List.concat_eq_append]
  have ends : ∀ name : Name, name.text.endsWith layout.extension = true ↔
      ∃ stem, name.text = stem ++ layout.extension := by
    intro name
    rw [String.endsWith_eq_endsWith_toSlice, String.Slice.endsWith_string_iff, String.copy_toSlice]
    constructor
    · rintro ⟨chars, whole⟩
      refine ⟨String.ofList chars, ?_⟩
      rw [← String.toList_inj, String.toList_append, String.toList_ofList, whole]
    · rintro ⟨stem, whole⟩
      exact ⟨stem.toList, by rw [whole, String.toList_append]⟩
  rw [namesPage, named, Option.any_eq_true]
  simp only [ends]

/-- The path of a page from the root is made of the names below the root. -/
theorem relativePath_below (absolute : layout.root.Absolute) (pageAbsolute : page.Absolute)
    {inside : List Name} (names : page.names = layout.root.names ++ inside) :
    layout.relativePath page = .ofComponents (inside.map .name) := by
  have after : page.after? layout.root = some (inside.map .name) := by
    rw [Place.after?, Text.isPrefixOf?_eq_some_iff, Place.components, Place.components,
      pageAbsolute, absolute, names, List.map_append, List.append_assoc]
  rw [relativePath, after]

/-- The output of a page below the root has the names of the page, but for the ending of the last
one. -/
theorem relativeOutput_below (absolute : layout.root.Absolute) (pageAbsolute : page.Absolute)
    {inside : List Name} (nonempty : inside ≠ []) (names : page.names = layout.root.names ++ inside)
    (named : layout.namesPage page.toPath = true) :
    ∃ front last html stem, inside = front ++ [last] ∧ Name.text last = stem ++ layout.extension ∧
      Name.text html = stem ++ "." ++ outputExtension ∧
      layout.relativeOutput page = .ofComponents ((front ++ [html]).map .name) := by
  rcases List.eq_nil_or_concat inside with rfl | ⟨front, last, rfl⟩
  · exact absurd rfl nonempty
  rw [List.concat_eq_append] at names ⊢
  obtain ⟨name, found, stem, ends⟩ := namesPage_toPath.mp named
  obtain rfl : last = name := by
    rw [Place.fileName?, names, ← List.append_assoc, List.getLast?_concat] at found
    exact Option.some.inj found
  have noSlash := last.no_slash
  rw [ends, String.toList_append, List.mem_append, not_or] at noSlash
  obtain ⟨html, ending⟩ := exists_name_html noSlash.1
  refine ⟨front, last, html, stem, rfl, ends, ending, ?_⟩
  obtain ⟨directory, -, written⟩ := Path.joined_piecesOf_concat front
  have dropped : Text.dropSuffix? (String.ofList (directory ++ last.text.toList)) layout.extension =
      some (String.ofList directory ++ stem) := by
    rw [Text.dropSuffix?_eq_some_iff, String.ofList_append, String.ofList_toList, ends,
      String.append_assoc]
  rw [relativeOutput, relativePath_below absolute pageAbsolute names, Path.ofComponents_names, written,
    dropped, Path.ofComponents_names, written, ending]
  simp only [String.ofList_append, String.ofList_toList, String.append_assoc]

/-- The output has the names of the page, but for the ending of the last one. -/
theorem Hosts.outputPath (hosts : layout.Hosts page) (absolute : layout.Absolute) :
    ∃ front last html stem, page.names = layout.root.names ++ (front ++ [last]) ∧
      Name.text last = stem ++ layout.extension ∧ Name.text html = stem ++ "." ++ outputExtension ∧
      layout.outputPath page = .fromRoot (layout.outDir.names ++ (front ++ [html])) := by
  obtain ⟨inside, nonempty, names⟩ := hosts.below
  obtain ⟨front, last, html, stem, rfl, ends, ending, relative⟩ :=
    relativeOutput_below absolute.root hosts.absolute nonempty names hosts.named
  refine ⟨front, last, html, stem, names, ends, ending, ?_⟩
  rw [Layout.outputPath, relative, Path.ofComponents_names, absolute.outDir.toPath,
    Path.fromRoot_join (by simp)]

/-- The output of a page is written as its place. -/
theorem Hosts.toPath_output (hosts : layout.Hosts page) (absolute : layout.Absolute) :
    (layout.output page).toPath = layout.outputPath page := by
  obtain ⟨front, last, html, stem, -, -, -, path⟩ := hosts.outputPath absolute
  rw [output, path, Place.ofPath_fromRoot]
  exact (Place.absolute_root _).toPath

theorem Hosts.absolute_output (hosts : layout.Hosts page) (absolute : layout.Absolute) :
    (layout.output page).Absolute := by
  obtain ⟨front, last, html, stem, -, -, -, path⟩ := hosts.outputPath absolute
  rw [output, path, Place.ofPath_fromRoot]
  exact Place.absolute_root _

theorem Hosts.within_output (hosts : layout.Hosts page) (absolute : layout.Absolute) :
    layout.outDir.names <+: (layout.output page).names := by
  obtain ⟨front, last, html, stem, -, -, -, path⟩ := hosts.outputPath absolute
  rw [output, path, Place.ofPath_fromRoot]
  exact List.prefix_append _ _

theorem Hosts.outside (hosts : layout.Hosts page) (absolute : layout.Absolute) :
    layout.Outside page.names := by
  rw [Outside, ← hosts.absolute.within_iff absolute.outDir]
  exact hosts.apart

/-- Names of pages are told apart by those of their outputs. -/
theorem names_of_output {front front' : List Name} {last last' html html' : Name}
    {stem stem' : String} (ends : last.text = stem ++ layout.extension)
    (ends' : last'.text = stem' ++ layout.extension)
    (ending : html.text = stem ++ "." ++ outputExtension)
    (ending' : html'.text = stem' ++ "." ++ outputExtension)
    (same : front ++ [html] = front' ++ [html']) : front ++ [last] = front' ++ [last'] := by
  obtain ⟨rfl, htmls⟩ := List.append_inj' same rfl
  obtain rfl := (List.cons.inj htmls).1
  have stems : stem = stem' := by
    rw [ending, String.append_assoc, String.append_assoc] at ending'
    exact (String.append_left_inj _).mp ending'
  have lasts : last = last' := Name.ext (by rw [ends, ends', stems])
  rw [lasts]

/-- Different pages have different outputs. -/
theorem Hosts.output_injective {other : Place} (absolute : layout.Absolute)
    (hosts : layout.Hosts page) (also : layout.Hosts other)
    (same : (layout.output page).names = (layout.output other).names) : page = other := by
  obtain ⟨front, last, html, stem, names, ends, ending, path⟩ := hosts.outputPath absolute
  obtain ⟨front', last', html', stem', names', ends', ending', path'⟩ := also.outputPath absolute
  rw [output, output, path, path', Place.ofPath_fromRoot, Place.ofPath_fromRoot] at same
  have inside := names_of_output ends ends' ending ending' (List.append_cancel_left same)
  exact hosts.absolute.ext also.absolute (by rw [names, names', inside])

end Stencil.Project.Layout
