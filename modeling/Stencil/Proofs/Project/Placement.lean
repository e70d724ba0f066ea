import Stencil.Proofs.Disk.Walks
import Stencil.Proofs.Project.Output

/-!
# Where outputs are put

Whatever page is asked for, its output lies in the directory of the output or in a directory below
it.  It is a file there, but for pages whose name is nothing but a dot and an extension: the output
of these is the directory above.  Pages without a name have the directory of the output itself for
their output.
-/

namespace Stencil

namespace Path

/-- The beginning of a text of names becomes a text of names with an ending. -/
theorem exists_names_of_append {names : List Name} {stem rest : List Char}
    (whole : joined (piecesOf names) = stem ++ rest) :
    ∃ front html, joined (piecesOf (front ++ [html])) =
      stem ++ '.' :: Project.Layout.outputExtension.toList := by
  have alone : ∀ {stem : List Char}, '/' ∉ stem → ∃ front html,
      joined (piecesOf (front ++ [html])) =
        stem ++ '.' :: Project.Layout.outputExtension.toList := by
    intro stem noSlash
    have noSlash : '/' ∉ (String.ofList stem).toList := by simpa using noSlash
    obtain ⟨html, written⟩ := Project.Layout.exists_name_html noSlash
    exact ⟨[], html, by simp [joined, written]⟩
  induction names generalizing stem with
  | nil =>
      obtain ⟨rfl, -⟩ := List.append_eq_nil_iff.mp whole.symm
      exact alone List.not_mem_nil
  | cons first others ih =>
      have slashes := first.no_slash
      cases others with
      | nil =>
          have inside : first.text.toList = stem ++ rest := whole
          rw [inside, List.mem_append, not_or] at slashes
          exact alone slashes.1
      | cons second others =>
          have split : first.text.toList ++ '/' :: joined (piecesOf (second :: others)) =
            stem ++ rest := whole
          rcases List.append_eq_append_iff.mp split with ⟨onward, rfl, later⟩ | ⟨_, inside, -⟩
          · cases onward with
            | nil => exact alone (by simpa using slashes)
            | cons c onward =>
                obtain ⟨slash, further⟩ := List.cons.inj later
                obtain ⟨front, html, written⟩ := ih further
                refine ⟨first :: front, html, ?_⟩
                have pieces : piecesOf (first :: front ++ [html]) =
                    [first.text.toList] ++ piecesOf (front ++ [html]) := rfl
                rw [pieces, joined_append (by simp) (by simp [piecesOf]), written, ← slash]
                simp [joined]
          · rw [inside, List.mem_append, not_or] at slashes
            exact alone slashes.1

end Path

/-- A name without its extension has no slash in it, like the name. -/
theorem Name.no_slash_stem (name : Name) : '/' ∉ name.stem.toList := by
  unfold stem
  dsimp only
  split
  · exact name.no_slash
  · split
    · exact name.no_slash
    · intro slash
      rw [String.toList_ofList, List.mem_reverse] at slash
      have inside := (List.dropWhile_sublist _).mem (List.mem_of_mem_drop slash)
      exact name.no_slash (List.mem_reverse.mp inside)

/-- The extension of the name behind other names is replaced.  A name that is nothing but a dot and
an extension turns into the directory above. -/
theorem Path.withExtension_names (front : List Name) (last : Name) :
    ∃ html : Name, (ofComponents ((front ++ [last]).map .name)).withExtension
        Project.Layout.outputExtension =
      ofComponents (front.map .name ++ [if last.stem = "." then .parent else .name html]) := by
  have directory := Component.inner_names front
  rw [withExtension, fileName?, components_ofComponents (Component.inner_names _), List.map_append,
    List.map_singleton, List.getLast?_concat, List.dropLast_concat]
  dsimp only
  split
  · have parent : (⟨Component.parent.text⟩ : Path) = ofComponents [.parent] := by decide
    exact ⟨last, by rw [parent, join_ofComponents (by simp) directory (by simp [Component.Inner])]⟩
  · obtain ⟨html, written⟩ := Project.Layout.exists_name_html last.no_slash_stem
    have named : (⟨last.stem ++ "." ++ Project.Layout.outputExtension⟩ : Path) =
        ofComponents [.name html] := by
      rw [← written]
      simp [ofComponents, joined, Component.text]
    exact ⟨html, by rw [named, join_ofComponents (by simp) directory (by simp [Component.Inner])]⟩

namespace Project.Layout

variable {layout : Layout} {page : Place}

/-- The name of a page is nothing but a dot and an extension, which is not the ending of pages. -/
structure Climbs (layout : Layout) (page : Place) : Prop where
  apart : page ≠ layout.root
  unnamed : layout.namesPage page.toPath = false
  dotted : ∃ name, page.fileName? = some name ∧ name.stem = "."

/-- The path of a page from the root consists of names, and ends with the name of the page. -/
theorem exists_names_relativePath (absolute : layout.root.Absolute) (pageAbsolute : page.Absolute) :
    ∃ names : List Name, layout.relativePath page = .ofComponents (names.map .name) ∧
      names.getLast? = if page = layout.root then none else page.fileName? := by
  cases after : page.after? layout.root with
  | some components =>
      have inside := after
      rw [Place.after?, Text.isPrefixOf?_eq_some_iff, Place.components, Place.components,
        pageAbsolute, absolute, List.append_assoc] at inside
      obtain ⟨above, names, whole, rootNames, rfl⟩ :=
        List.map_eq_append_iff.mp (List.append_cancel_left inside)
      obtain rfl := (List.map_inj_right fun _ _ => Component.name.inj).mp rootNames
      refine ⟨names, by rw [relativePath, after], ?_⟩
      rcases List.eq_nil_or_concat names with rfl | ⟨front, last, rfl⟩
      · rw [if_pos (pageAbsolute.ext absolute (by rw [whole, List.append_nil]))]
        rfl
      · have apart : page ≠ layout.root := by
          rintro rfl
          simp at whole
        rw [if_neg apart, Place.fileName?, whole]
        simp
  | none =>
      have apart : page ≠ layout.root := by
        rintro rfl
        have self := Text.isPrefixOf?_eq_some_iff.mpr (List.append_nil layout.root.components).symm
        rw [Place.after?, self] at after
        cases after
      rw [relativePath, after, if_neg apart]
      cases page.fileName? with
      | none => exact ⟨[], rfl, rfl⟩
      | some name => exact ⟨[name], by simp [Path.ofComponents, Path.joined, Component.text], rfl⟩

/-- Names that do not end with the ending of pages are not the name of one. -/
theorem unnamed_of_dropSuffix? {front : List Name} {last : Name} (found : page.fileName? = some last)
    (kept : Text.dropSuffix? (Path.ofComponents ((front ++ [last]).map .name)).text
      layout.extension = none) :
    layout.namesPage page.toPath = false := by
  rw [← Bool.not_eq_true, namesPage_toPath]
  rintro ⟨name, named, stem, ends⟩
  obtain rfl := Option.some.inj (named.symm.trans found)
  obtain ⟨directory, -, written⟩ := Path.joined_piecesOf_concat front
  have dropped := Text.dropSuffix?_eq_some_iff.mpr (by
    rw [Path.ofComponents_names, written, ends, ← String.toList_inj]
    simp : (Path.ofComponents ((front ++ [name]).map .name)).text =
      (String.ofList directory ++ stem) ++ layout.extension)
  rw [dropped] at kept
  cases kept

/-- The output of a page is written as names and a component behind them, or not at all. -/
theorem relativeOutput_shape (absolute : layout.root.Absolute) (pageAbsolute : page.Absolute) :
    (∃ (names : List Name) (last : Component), last.Inner ∧ (last = .parent → layout.Climbs page) ∧
        layout.relativeOutput page = .ofComponents (names.map .name ++ [last])) ∨
      layout.relativeOutput page = ⟨""⟩ := by
  obtain ⟨names, path, ends⟩ := exists_names_relativePath absolute pageAbsolute
  rw [relativeOutput, path]
  split
  next stem dropped =>
    have whole := Text.dropSuffix?_eq_some_iff.mp dropped
    rw [Path.ofComponents_names, ← String.toList_inj, String.toList_ofList,
      String.toList_append] at whole
    obtain ⟨front, html, written⟩ := Path.exists_names_of_append whole
    refine .inl ⟨front, .name html, trivial, (fun above => by cases above), ?_⟩
    rw [← List.map_singleton, ← List.map_append, Path.ofComponents_names, written]
    apply Path.ext
    rw [← String.toList_inj]
    simp
  next kept =>
    rcases List.eq_nil_or_concat names with rfl | ⟨front, last, rfl⟩
    · exact .inr rfl
    · rw [List.concat_eq_append] at ends kept ⊢
      have apart : page ≠ layout.root := by
        intro same
        rw [if_pos same] at ends
        simp at ends
      rw [if_neg apart, List.getLast?_concat] at ends
      left
      obtain ⟨html, replaced⟩ := Path.withExtension_names front last
      refine ⟨front, _, ?_, fun above => ⟨apart, unnamed_of_dropSuffix? ends.symm kept, last,
        ends.symm, ?_⟩, replaced⟩
      · split <;> trivial
      · refine Decidable.byContradiction fun dotted => ?_
        rw [if_neg dotted] at above
        cases above

/-- The output of a page is an entry of the directory at `above`. -/
structure PutsAt (layout : Layout) (page : Place) (above : List Name) (last : Component) : Prop where
  absolute : page.Absolute
  inner : last.Inner
  within : layout.outDir.names <+: above
  path : layout.outputPath page = .ofComponents (.root :: (above.map .name ++ [last]))

/-- The output of a page is an entry of the directory of the output or of one below it, unless it is
the directory of the output itself. -/
theorem outputPath_shape (absolute : layout.Absolute) (pageAbsolute : page.Absolute) :
    (∃ above last, layout.PutsAt page above last) ∨
      layout.outputPath page = layout.outDir.toPath.join ⟨""⟩ := by
  rcases relativeOutput_shape absolute.root pageAbsolute with ⟨names, last, inner, -, path⟩ | bare
  · have outDir := Component.inner_names layout.outDir.names
    have inside := Component.inner_concat names inner
    refine .inl ⟨layout.outDir.names ++ names, last, pageAbsolute, inner, List.prefix_append _ _, ?_⟩
    rw [outputPath, path, absolute.outDir.toPath, Path.fromRoot,
      Path.join_ofComponents_root (by simp) outDir inside, List.map_append, List.append_assoc]
  · exact .inr (by rw [outputPath, bare])

/-- The directory of the output has the same components with a slash behind it. -/
theorem components_bare (absolute : layout.Absolute) :
    (layout.outDir.toPath.join ⟨""⟩).components = layout.outDir.components := by
  rw [absolute.outDir.toPath, Path.components_join_empty, absolute.outDir.components]

namespace PutsAt

variable {above : List Name} {last : Component} (puts : layout.PutsAt page above last)

include puts

/-- A build writes the output. -/
theorem destination : layout.destination page = layout.outputPath page :=
  destination_eq puts.absolute

theorem innerAll : ∀ component ∈ above.map .name ++ [last], component.Inner :=
  Component.inner_concat above puts.inner

theorem components : (layout.outputPath page).components = .root :: (above.map .name ++ [last]) := by
  rw [puts.path, Path.components_ofComponents_root puts.innerAll]

theorem parent? : (layout.outputPath page).parent? = some (.fromRoot above) := by
  have whole : Component.root :: (above.map .name ++ [last]) =
      (.root :: above.map .name) ++ [last] := rfl
  rw [Path.parent?, puts.components, whole, List.getLast?_concat, List.dropLast_concat]
  have inner := puts.inner
  cases last with
  | root => cases inner
  | current => cases inner
  | parent => rfl
  | name entry => rfl

theorem steps : (layout.outputPath page).steps =
    .along .root :: (Disk.along above ++ [.along last]) := by
  rw [puts.path, Path.steps_ofComponents_root puts.innerAll (by simp)]
  simp [Disk.along, Function.comp_def]

end PutsAt

end Project.Layout

end Stencil
