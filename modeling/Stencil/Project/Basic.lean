import Stencil.Project.Scan
import Stencil.Render.Page
import Stencil.Settings.File
import Stencil.Template.Files

/-!
# Projects

A project knows its layout, where its templates come from, and its pages.  For each page it
remembers the templates that the last successful build of the page used.
-/

namespace Stencil

/-- A page, and the places of the templates that its last successful build used. -/
structure Project.Page where
  source : Place
  dependencies : Std.ExtTreeSet Place := ∅

/-- Where a project finds its templates. -/
inductive Project.Templates where
  /-- In the files below its root. -/
  | files
  /-- In a library of its own. -/
  | library (library : Template.Library)

/-- A project with the pages that it knows. -/
structure Project where
  layout : Project.Layout
  templates : Project.Templates := .files
  pages : Std.ExtTreeMap Place Project.Page := ∅

namespace Project

/-- The project at `root` with the settings that lie there, on a machine with the given room. -/
def load (room : Nat) (disk : Disk) (root : Path) (templates : Templates := .files) :
    Except Error Project := do
  let settings ← Settings.load disk root
  match Layout.ofSettings room (.ofPath root) (settings.getD {}) with
  | .error fault => throw (.settings fault)
  | .ok layout => return { layout, templates }

/-- The library that the templates of a project come from. -/
def library (project : Project) (disk : Disk) : Template.Library :=
  match project.templates with
  | .files => .below disk project.layout.root
  | .library library => library

/-- Whether a project knows the page at a place. -/
def knows (project : Project) (source : Place) : Bool :=
  project.pages.contains source

/-- Make a page known.  A page that is known already stays as it is. -/
def register (project : Project) (source : Place) : Project :=
  if project.knows source then project
  else { project with pages := project.pages.insert source { source } }

/-- Make pages known, and count those that are new. -/
def registerAll (project : Project) (sources : List Place) : Nat × Project :=
  sources.foldl
    (fun (count, project) source =>
      (if project.knows source then count else count + 1, project.register source))
    (0, project)

/-- Make known the page at a path, or all pages below the directory there, and count those that
are new.  Every step starts from the root again, which makes a difference when the root is not an
absolute place. -/
def loadPath (project : Project) (disk : Disk) (path : Path) : Except Error (Nat × Project) :=
  let place := project.layout.resolve path
  let again (place : Place) := project.layout.resolve place.toPath
  match disk.read place.toPath with
  | .error fault => .error (.disk fault)
  | .ok .directory =>
      (project.layout.scan disk (again place)).map fun pages => project.registerAll (pages.map again)
  | .ok _ => .ok (project.registerAll [again place])

/-- Make known the pages at paths.  When that fails for a path, the pages of the paths before it
stay known. -/
def loadPaths (project : Project) (disk : Disk) : List Path → Except Error Nat × Project
  | [] => (.ok 0, project)
  | path :: rest =>
      match project.loadPath disk path with
      | .error error => (.error error, project)
      | .ok (count, project) =>
          let (outcome, project) := loadPaths project disk rest
          (outcome.map (count + ·), project)

/-- The places that a page depends on, when it is known. -/
def dependencies? (project : Project) (source : Place) : Option (Std.ExtTreeSet Place) :=
  project.pages[source]?.map Page.dependencies

/-- Remember the dependencies of a page, when it is known. -/
def record (project : Project) (source : Place) (dependencies : Std.ExtTreeSet Place) : Project :=
  match project.pages[source]? with
  | none => project
  | some page =>
      { project with pages := project.pages.insert source { page with dependencies } }

/-- The known pages that depend on a place. -/
def dependents (project : Project) (place : Place) : List Place :=
  (project.pages.toList.filter (·.2.dependencies.contains place)).map (·.2.source)

/-- Render the page at a place, with the room that there is. -/
def render (project : Project) (disk : Disk) (source : Place) : Except Error Render.Rendered :=
  match disk.readText source.toPath with
  | .error fault => .error (.disk fault)
  | .ok content =>
      let composer : Render.Composer :=
        { dialect := project.layout.dialect, library := project.library disk }
      composer.render project.layout.room source.toPath content ∅

end Project

end Stencil
