import Stencil.Disk.Change
import Stencil.Project.Basic

/-!
# Building pages

A build renders a page from a disk, writes the output there and remembers what the page depends
on.  Pages are built one after the other, and a page that fails does not stop the others.  When a
file changes, the pages that it concerns are built again.

A build that there is no room for does not end, and neither do the builds that it is one of: there
is no report of them.
-/

namespace Stencil.Project

/-- A project together with the disk that it lies on. -/
structure Site where
  project : Project
  disk : Disk

/-- A page whose build failed, as it was asked for. -/
structure Failure where
  source : Path
  error : Error

/-- What came of the builds of several pages. -/
structure Report where
  /-- The files that were written, in order. -/
  written : List Path
  /-- The pages that failed, in order. -/
  failures : List Failure

namespace Report

/-- The report of builds, each given as the page asked for and its outcome. -/
def ofOutcomes (outcomes : List (Path × Except Error Path)) : Report where
  written :=
    (outcomes.filterMap fun (_, outcome) => outcome.toOption).mergeSort Path.precedes
  failures :=
    (outcomes.filterMap fun
      | (source, .error error) => some ⟨source, error⟩
      | (_, .ok _) => none).mergeSort fun first second => first.source.precedes second.source

/-- The report of builds, if all of them come to their ends. -/
def ofOutcomes? (outcomes : List (Path × Except Error Path)) : Option Report :=
  if outcomes.all (Error.ends ·.2) then some (ofOutcomes outcomes) else none

theorem ofOutcomes?_eq_some {outcomes : List (Path × Except Error Path)} {report : Report} :
    ofOutcomes? outcomes = some report ↔
      (∀ outcome ∈ outcomes, Error.ends outcome.2 = true) ∧ ofOutcomes outcomes = report := by
  unfold ofOutcomes?
  by_cases ends : ∀ outcome ∈ outcomes, Error.ends outcome.2 = true
  · rw [if_pos (List.all_eq_true.mpr ends), Option.some.injEq]
    exact (and_iff_right ends).symm
  · rw [if_neg fun all => ends (List.all_eq_true.mp all)]
    exact ⟨nofun, fun both => absurd both.1 ends⟩

/-- Whether no page failed. -/
def isOk (report : Report) : Bool :=
  report.failures.isEmpty

end Report

/-- Write the output of a page to its file, and make the directories on the way. -/
def Layout.writeOutput (layout : Layout) (disk : Disk) (source : Place) (content : String) :
    Except Disk.Fault Path × Disk :=
  let output := layout.destination source
  let (made, disk) : Except Disk.Fault Unit × Disk :=
    match output.parent? with
    | none => (.ok (), disk)
    | some parent => disk.makeDirectories parent
  match made with
  | .error fault => (.error fault, disk)
  | .ok _ =>
      match disk.write output content.toUTF8 with
      | .error fault => (.error fault, disk)
      | .ok disk => (.ok output, disk)

namespace Site

/-- Render a page, and remember what it depends on. -/
def build (site : Site) (source : Place) : Except Error String × Site :=
  match site.project.render site.disk source with
  | .error error => (.error error, site)
  | .ok page => (.ok page.content, { site with project := site.project.record source page.dependencies })

/-- Write the output of a page that was rendered, and remember what the page depends on. -/
def finish (site : Site) (source : Place) (page : Render.Rendered) : Except Error Path × Site :=
  match site.project.layout.writeOutput site.disk source page.content with
  | (.error fault, disk) => (.error (.disk fault), { site with disk })
  | (.ok output, disk) => (.ok output, ⟨site.project.record source page.dependencies, disk⟩)

/-- Render a page and write its output. -/
def buildToFile (site : Site) (source : Place) : Except Error Path × Site :=
  match site.project.render site.disk source with
  | .error error => (.error error, site)
  | .ok page => site.finish source page

/-- Build the pages at paths one after the other. -/
def buildEach (site : Site) : List Path → List (Path × Except Error Path) × Site
  | [] => ([], site)
  | source :: rest =>
      let (outcome, site) := site.buildToFile (site.project.layout.resolve source)
      let (outcomes, site) := buildEach site rest
      ((source, outcome) :: outcomes, site)

/-- Build the pages at paths.  There is no report when one of the builds does not end, and the site is
then as the others leave it. -/
def buildMany (site : Site) (sources : List Path) : Option Report × Site :=
  let (outcomes, site) := site.buildEach sources
  (Report.ofOutcomes? outcomes, site)

/-- Build every page that is known. -/
def buildAll (site : Site) : Option Report × Site :=
  site.buildMany (site.project.pages.keys.map Place.toPath)

/-- Build what the change of a file concerns.  A page is made known and built on its own, and any
other file concerns the pages that depend on it. -/
def notifyChange (site : Site) (path : Path) : Option Report × Site :=
  let place := site.project.layout.resolve path
  if site.project.layout.namesPage place.toPath && !site.project.layout.excludes place.toPath then
    buildMany { site with
      project := site.project.register (site.project.layout.resolve place.toPath) } [place.toPath]
  else
    site.buildMany ((site.project.dependents place).map Place.toPath)

end Site

end Stencil.Project
