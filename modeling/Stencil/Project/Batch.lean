import Stencil.Project.Build

/-!
# Batches

The pages of a batch are built by tasks that share one site and take turns in any order.  In its
turns a task renders its page, makes the directories above the output, writes the output and
remembers what the page depends on.  Between two turns of a task, the other tasks may change the
site.  A task that there is no room for has no outcome, however many turns it takes.
-/

namespace Stencil

/-- Make the directories above a path. -/
def Disk.makeParents (disk : Disk) (path : Path) : Except Disk.Fault Unit × Disk :=
  match path.parent? with
  | none => (.ok (), disk)
  | some parent => disk.makeDirectories parent

namespace Project

/-- How far the build of a page has come. -/
inductive Stage where
  | waiting
  | rendered (page : Render.Rendered)
  /-- The directories above the output are there. -/
  | prepared (page : Render.Rendered)
  | written (page : Render.Rendered)
  | done (outcome : Except Error Path)

/-- The outcome of a build that is done, if it has come to one. -/
def Stage.outcome? : Stage → Option (Except Error Path)
  | done outcome => if Error.ends outcome then some outcome else none
  | _ => none

/-- The stage that a turn leads to.  A turn that fails ends the build. -/
def Stage.ofOutcome : Except Error Stage → Stage
  | .ok stage => stage
  | .error error => done (.error error)

/-- Take the next turn in the build of a page. -/
def Site.turn (site : Site) (source : Place) : Stage → Stage × Site
  | .waiting => (.ofOutcome ((site.project.render site.disk source).map .rendered), site)
  | .rendered page =>
      let made := site.disk.makeParents (site.project.layout.destination source)
      (.ofOutcome ((made.1.mapError .disk).map fun _ => .prepared page), { site with disk := made.2 })
  | .prepared page =>
      let written := site.disk.write (site.project.layout.destination source) page.content.toUTF8
      (.ofOutcome ((written.mapError .disk).map fun _ => .written page),
        { site with disk := written.toOption.getD site.disk })
  | .written page =>
      (.done (.ok (site.project.layout.destination source)),
        { site with project := site.project.record source page.dependencies })
  | .done outcome => (.done outcome, site)

/-- The build of a page, as the page was asked for. -/
structure Task where
  source : Path
  stage : Stage := .waiting

/-- Builds of pages on one site. -/
structure Batch where
  site : Site
  tasks : List Task

namespace Batch

/-- No build has begun yet. -/
def start (site : Site) (sources : List Path) : Batch where
  site
  tasks := sources.map fun source => { source }

/-- Let the task with a number take a turn. -/
def advance (batch : Batch) (number : Nat) : Batch :=
  match batch.tasks[number]? with
  | none => batch
  | some task =>
      let (stage, site) :=
        batch.site.turn (batch.site.project.layout.resolve task.source) task.stage
      ⟨site, batch.tasks.set number { task with stage }⟩

/-- Let tasks take turns in a given order. -/
def follow (batch : Batch) (schedule : List Nat) : Batch :=
  schedule.foldl advance batch

/-- All builds are done, and have come to outcomes. -/
def Finished (batch : Batch) : Prop :=
  ∀ task ∈ batch.tasks, task.stage.outcome?.isSome

instance (batch : Batch) : Decidable batch.Finished :=
  inferInstanceAs (Decidable (∀ _ ∈ _, _))

/-- What came of the builds that are done. -/
def outcomes (batch : Batch) : List (Path × Except Error Path) :=
  batch.tasks.filterMap fun task => task.stage.outcome?.map (task.source, ·)

def report (batch : Batch) : Report :=
  .ofOutcomes batch.outcomes

end Batch

end Project

end Stencil
