import Stencil.Project.Basic
import Stencil.Proofs.Disk.Walks
import Stencil.Proofs.Project.Output
import Stencil.Proofs.Render.Lookups

/-!
# What the build of a page reads

The build of a page reads the page, and looks for templates at some places.  It comes out the same
from every other disk that has the same files there.
-/

namespace Stencil

open Render

namespace Template.Library

variable {disk other : Disk} {root : Place}

/-- A template is the same on disks with the same file at its place. -/
theorem fetch_below_congr (plain : disk.Plain) (also : other.Plain) (absolute : root.Absolute)
    (path : Path)
    (same : other.file? (root.resolve path).names = disk.file? (root.resolve path).names) :
    (below other root).fetch path = (below disk root).fetch path := by
  have absolute := absolute.resolve path
  have file := Disk.isFile_congr plain also absolute same
  rw [below, below]
  dsimp only
  rw [file]
  by_cases there : disk.isFile (root.resolve path).toPath = true
  · rw [if_pos there, if_pos there, Disk.readText_congr plain also absolute same there]
  · rw [if_neg there, if_neg there]

/-- Where there is no file there is no template. -/
theorem fetch_below_eq_none (path : Path) :
    (below disk root).fetch path = .ok none ↔ disk.isFile (root.resolve path).toPath = false := by
  rw [below]
  dsimp only
  by_cases there : disk.isFile (root.resolve path).toPath = true
  · rw [if_pos there]
    cases disk.readText (root.resolve path).toPath <;> simp [there, Except.map]
  · simp [there]

end Template.Library

namespace Project

/-- The project of a layout, before any page is known. -/
def Layout.start (layout : Layout) : Project :=
  { layout }

/-- What the pages of a project are rendered with. -/
def composer (project : Project) (disk : Disk) : Composer :=
  { dialect := project.layout.dialect, library := project.library disk }

/-- The places at which the build of a page looks for templates. -/
def lookups (project : Project) (disk : Disk) (source : Place) : Std.ExtTreeSet Place :=
  match disk.readText source.toPath with
  | .error _ => ∅
  | .ok content =>
      ((project.composer disk).run project.layout.room source.toPath content ∅).2.consulted

theorem render_eq_ok_iff {project : Project} {disk : Disk} {source : Place} {rendered : Rendered} :
    project.render disk source = .ok rendered ↔
      ∃ content, disk.readText source.toPath = .ok content ∧
        ((project.composer disk).run project.layout.room source.toPath content ∅).1 =
          .ok rendered := by
  unfold render
  cases disk.readText source.toPath with
  | error fault => simp
  | ok content => simp [composer, Composer.render]

/-- Pages are rendered with the layout and the templates of a project. -/
theorem render_eq_of_same {project other : Project} (layout : project.layout = other.layout)
    (templates : project.templates = other.templates) (disk : Disk) (source : Place) :
    project.render disk source = other.render disk source := by
  simp only [render, library, layout, templates]

/-- Only the layout of a project with files for templates matters for its pages. -/
theorem render_eq_start {project : Project} (files : project.templates = .files) (disk : Disk)
    (source : Place) : project.render disk source = project.layout.start.render disk source :=
  @render_eq_of_same project project.layout.start rfl files disk source

/-- A page comes out the same, or fails in the same way, where its text is the same and the templates
it asks for are. -/
theorem render_of_answers {project : Project} {seen disk : Disk} {source : Place}
    (read : disk.readText source.toPath = seen.readText source.toPath)
    (answers : ∀ path, (project.library seen).identify path ∈ project.lookups seen source →
      (project.library disk).fetch path = (project.library seen).fetch path) :
    project.render disk source = project.render seen source := by
  have identify : (project.library disk).identify = (project.library seen).identify := by
    unfold library
    cases project.templates <;> rfl
  rw [render, render, read]
  cases found : seen.readText source.toPath with
  | error fault => rfl
  | ok content =>
      rw [lookups, found] at answers
      have congr := @Composer.run_of_consulted (project.composer seen) project.layout.room
        source.toPath content ∅ (project.library disk) identify answers
      exact congrArg Prod.fst congr

namespace Layout

variable {layout : Layout} {seen disk : Disk} {source : Place} {rendered : Rendered}

theorem isFile_of_readText {path : Path} {content : String}
    (read : disk.readText path = .ok content) : disk.isFile path = true := by
  unfold Disk.readText at read
  unfold Disk.isFile
  split at read
  · cases read
  next held => rw [held]
  · cases read

/-- A page is rendered alike from a disk with the same files where the build has looked. -/
theorem render_congr (absolute : layout.Absolute) (plain : seen.Plain) (also : disk.Plain)
    (sourceAbsolute : source.Absolute) (succeeded : layout.start.render seen source = .ok rendered)
    (same : disk.file? source.names = seen.file? source.names)
    (agrees : ∀ place ∈ layout.start.lookups seen source, place.Absolute →
      disk.file? place.names = seen.file? place.names) :
    layout.start.render disk source = .ok rendered := by
  rcases render_eq_ok_iff.mp succeeded with ⟨content, read, -⟩
  have file := isFile_of_readText read
  rw [render_of_answers (Disk.readText_congr plain also sourceAbsolute same file), succeeded]
  intro path looked
  exact Template.Library.fetch_below_congr plain also absolute.root path
    (agrees _ looked (absolute.root.resolve path))

/-- Where the build of a page has found a file, the page depends on it. -/
theorem mem_dependencies_of_lookups {place : Place} (absolute : place.Absolute)
    (succeeded : layout.start.render seen source = .ok rendered)
    (looked : place ∈ layout.start.lookups seen source)
    (file : seen.isFile place.toPath = true) : place ∈ rendered.dependencies := by
  rcases render_eq_ok_iff.mp succeeded with ⟨content, read, ran⟩
  rw [lookups, read] at looked
  have there : layout.root.resolve place.toPath = place := Place.resolve_toPath _ absolute
  have filled : (Template.Library.below seen layout.root).fetch place.toPath ≠ .ok none := by
    rw [ne_eq, Template.Library.fetch_below_eq_none, there, file]
    intro same
    cases same
  rw [← there] at looked ⊢
  exact Composer.mem_dependencies_of_consulted (Template.Library.coherent_below seen layout.root)
    ran looked filled

end Layout

end Project

end Stencil
