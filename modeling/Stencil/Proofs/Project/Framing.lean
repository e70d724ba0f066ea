import Stencil.Proofs.Disk.Relative
import Stencil.Proofs.Project.Accounts
import Stencil.Proofs.Project.Effects

/-!
# Files that batches leave alone

Wherever outputs go, and in whatever order the builds of a batch take turns, they write no files but
the outputs of their pages.  So the output of any other page stays as it was, whether it is there or
not.
-/

namespace Stencil

/-- Without the directory that relative paths start from, no directories are made along them. -/
theorem Disk.makeParents_lost {disk : Disk} {path : Path}
    (lost : disk.get? disk.here ≠ some .directory) (relative : .root ∉ path.components) :
    (disk.makeParents path).2 = disk := by
  unfold makeParents
  split
  · rfl
  next parent found =>
    apply makeDirectories_lost lost
    rw [Path.components_of_parent? found]
    exact fun member => relative (List.dropLast_subset _ member)

namespace Project

namespace Layout

variable {layout : Layout} {page other : Place} {inside : List Name}

/-- The output of a page is an entry with names below the directory of the output. -/
structure Emits (layout : Layout) (page : Place) (inside : List Name) : Prop where
  named : inside ≠ []
  path : layout.outputPath page = (layout.outDir.below inside).toPath

/-- The output of a page has names below the directory of the output, or it can be no file. -/
theorem emits_or_unnamed (absolute : layout.root.Absolute) (pageAbsolute : page.Absolute) :
    (∃ inside, layout.Emits page inside) ∨ (layout.outputPath page).Unnamed := by
  rcases relativeOutput_shape absolute pageAbsolute with ⟨names, last, inner, -, path⟩ | bare
  · have all := Component.inner_concat names inner
    have nonempty : names.map Component.name ++ [last] ≠ [] := by simp
    have joined := layout.outDir.toPath_join_ofComponents nonempty all
    have steps := layout.outDir.steps_ofComponents_append nonempty all
    rw [← path] at joined
    cases last with
    | root => cases inner
    | current => cases inner
    | name html =>
        refine .inl ⟨names ++ [html], by simp, ?_⟩
        rw [outputPath, joined]
        simp [Place.toPath, Place.below, Place.components]
    | parent =>
        right
        rw [Path.Unnamed, outputPath, joined, steps]
        simp
  · right
    rw [outputPath, bare]
    exact layout.outDir.unnamed_toPath_join

/-- Outputs are relative when the directory of the output is. -/
theorem root_not_mem_outputPath (absolute : layout.root.Absolute) (pageAbsolute : page.Absolute)
    (apart : ¬layout.outDir.Absolute) : .root ∉ (layout.outputPath page).components := by
  have output : (layout.relativeOutput page).isAbsolute = false := by
    rcases relativeOutput_shape absolute pageAbsolute with ⟨names, last, inner, -, path⟩ | bare
    · rw [path, Path.isAbsolute_ofComponents (Component.inner_concat names inner)]
    · rw [bare]
      rfl
  have directory : layout.outDir.toPath.isAbsolute = false :=
    Bool.eq_false_iff.mpr (mt Place.isAbsolute_toPath.mp apart)
  apply Path.root_not_mem_components
  rw [outputPath, Path.isAbsolute_join, output, directory]
  rfl

namespace Emits

theorem ofPath (emits : layout.Emits page inside) :
    .ofPath (layout.outputPath page) = layout.outDir.below inside := by
  rw [emits.path, Place.ofPath_toPath]

/-- Pages with outputs of different components have their outputs at different locations. -/
theorem locate_ne {others : List Name} (emits : layout.Emits page inside)
    (also : layout.Emits other others)
    (apart : (layout.outputPath page).components ≠ (layout.outputPath other).components)
    (disk : Disk) :
    disk.locate (layout.outDir.below inside) ≠ disk.locate (layout.outDir.below others) := by
  intro same
  rw [Disk.locate_below, Disk.locate_below] at same
  obtain rfl := List.append_cancel_left same
  exact apart (by rw [emits.path, also.path])

end Emits

end Layout

namespace Site

variable {site : Site} {page : Place}

/-- A turn writes no file but the output of the page. -/
theorem writes_turn (absolute : site.project.layout.root.Absolute) (pageAbsolute : page.Absolute)
    (plain : site.disk.Plain) (stage : Stage) :
    Disk.Develops (fun _ => True)
      (fun location _ => ∃ inside, site.project.layout.Emits page inside ∧
        location = site.disk.locate (site.project.layout.outDir.below inside))
      site.disk (site.turn page stage).2.disk := by
  cases stage with
  | waiting => exact .refl _ _ _
  | written rendered => exact .refl _ _ _
  | done outcome => exact .refl _ _ _
  | rendered rendered =>
      rw [turn]
      dsimp only
      exact (Disk.develops_makeParents plain _).mono (fun _ _ => trivial) fun _ _ never => never.elim
  | prepared rendered =>
      rw [turn, Layout.destination_eq pageAbsolute]
      cases wrote : site.disk.write (site.project.layout.outputPath page)
          rendered.content.toUTF8 with
      | error fault => exact .refl _ _ _
      | ok after =>
          rcases Layout.emits_or_unnamed absolute pageAbsolute with ⟨inside, emits⟩ | unnamed
          · refine (Disk.develops_write plain wrote).mono (fun _ never => never.elim) ?_
            rintro location content ⟨leads, -⟩
            exact ⟨inside, emits, by rw [leads, emits.ofPath]⟩
          · exact absurd wrote (Disk.write_ne_ok plain unnamed _ _)

/-- A turn changes nothing when the output is relative and the directory that relative paths start
from is gone. -/
theorem disk_turn_lost (absolute : site.project.layout.root.Absolute)
    (pageAbsolute : page.Absolute) (plain : site.disk.Plain)
    (apart : ¬site.project.layout.outDir.Absolute)
    (lost : site.disk.get? site.disk.here ≠ some .directory) (stage : Stage) :
    (site.turn page stage).2.disk = site.disk := by
  have relative := Layout.root_not_mem_outputPath absolute pageAbsolute apart
  cases stage with
  | waiting => rfl
  | written rendered => rfl
  | done outcome => rfl
  | rendered rendered =>
      rw [turn, Layout.destination_eq pageAbsolute]
      dsimp only
      exact Disk.makeParents_lost lost relative
  | prepared rendered =>
      rw [turn, Layout.destination_eq pageAbsolute]
      cases wrote : site.disk.write (site.project.layout.outputPath page)
          rendered.content.toUTF8 with
      | error fault => rfl
      | ok after => exact absurd wrote (Disk.write_lost lost relative plain _ _)

end Site

namespace Batch

variable {first : Site} {sources : List Path} {page : Place}

/-- The output of a page of a batch goes to a location. -/
def Writes (first : Site) (sources : List Path) (location : Disk.Location) (_ : ByteArray) : Prop :=
  ∃ source ∈ sources, ∃ inside, first.project.layout.Emits (first.place source) inside ∧
    location = first.disk.locate (first.project.layout.outDir.below inside)

variable (absolute : first.project.layout.root.Absolute) (plain : first.disk.Plain)

include absolute plain

/-- A batch writes no files but the outputs of its pages. -/
theorem writes_follow (schedule : List Nat) :
    Disk.Develops (fun _ => True) (Writes first sources) first.disk
      ((start first sources).follow schedule).site.disk := by
  refine disk_follow first sources (Disk.Develops (fun _ => True) (Writes first sources) first.disk)
    (fun later source stage asked layout develops => ?_) (.refl _ _ _) schedule
  have turned := Site.writes_turn (by rwa [layout]) (absolute.resolve source)
    (develops.plain plain) stage
  refine develops.trans (turned.mono (fun _ => id) ?_)
  rintro location content ⟨inside, emits, leads⟩
  rw [layout] at emits leads
  exact ⟨source, asked, inside, emits, by rw [leads, Disk.locate_congr develops.here]⟩

/-- A batch with relative outputs changes nothing on a disk without the directory that relative paths
start from. -/
theorem disk_follow_lost (apart : ¬first.project.layout.outDir.Absolute)
    (lost : first.disk.get? first.disk.here ≠ some .directory) (schedule : List Nat) :
    ((start first sources).follow schedule).site.disk = first.disk := by
  refine disk_follow first sources (· = first.disk)
    (fun later source stage _ layout same => ?_) rfl schedule
  have still := @Site.disk_turn_lost later (first.place source) (by rwa [layout])
    (absolute.resolve source) (by rwa [same]) (by rwa [layout]) (by rwa [same]) stage
  exact still.trans same

/-- The output of a page stays as it was when no page of the batch has the same output. -/
theorem read_follow (pageAbsolute : page.Absolute)
    (apart : ∀ source ∈ sources, (first.project.layout.outputPath (first.place source)).components ≠
      (first.project.layout.outputPath page).components)
    (schedule : List Nat) (content : ByteArray) :
    ((start first sources).follow schedule).site.disk.read (first.project.layout.outputPath page) =
        .ok (.file content) ↔
      first.disk.read (first.project.layout.outputPath page) = .ok (.file content) := by
  have develops := @writes_follow first sources absolute plain schedule
  have lost := fun apart gone => @disk_follow_lost first sources absolute plain apart gone schedule
  generalize ((start first sources).follow schedule).site.disk = after at develops lost ⊢
  have also := develops.plain plain
  rcases Layout.emits_or_unnamed absolute pageAbsolute with ⟨inside, emits⟩ | unnamed
  · have named : (first.project.layout.outDir.below inside).names ≠ [] := by
      simp [Place.below, emits.named]
    have spared : after.file? (first.disk.locate (first.project.layout.outDir.below inside)) =
        first.disk.file? (first.disk.locate (first.project.layout.outDir.below inside)) := by
      apply develops.file?
      rintro content ⟨source, member, others, written, leads⟩
      exact written.locate_ne emits (apart source member) first.disk leads.symm
    have grounds : after.Grounds (first.project.layout.outDir.below inside) ↔
        first.disk.Grounds (first.project.layout.outDir.below inside) := by
      refine or_congr_right' fun relative => ?_
      rw [develops.here]
      refine ⟨fun there => ?_, develops.directory⟩
      refine Decidable.byContradiction fun gone => gone ?_
      rwa [lost relative gone] at there
    rw [emits.path, Disk.read_toPath_iff also named, Disk.read_toPath_iff plain named, grounds,
      Disk.locate_congr develops.here, ← Disk.file?_eq_some, ← Disk.file?_eq_some, spared]
  · exact ⟨fun found => absurd found (Disk.read_ne_file also unnamed content),
      fun found => absurd found (Disk.read_ne_file plain unnamed content)⟩

end Batch

end Project

end Stencil
