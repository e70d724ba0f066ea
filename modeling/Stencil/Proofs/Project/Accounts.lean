import Stencil.Proofs.Project.Batches
import Stencil.Proofs.Project.Landing
import Stencil.Proofs.Project.Records

/-!
# What batches account for

When a batch is finished, its report names every page once, with its output or as a failure.  At any
time a batch has changed no file but the outputs of pages that it has rendered, and the outputs that
it reports are there.
-/

namespace Stencil

namespace Path

theorem precedes_trans (first second third : Path) (before : first.precedes second = true)
    (after : second.precedes third = true) : first.precedes third = true :=
  Std.TransCmp.isLE_trans before after

theorem precedes_total (first second : Path) :
    (first.precedes second || second.precedes first) = true :=
  Component.isLE_total first.components second.components

end Path

namespace Project

open Render

namespace Report

variable (outcomes : List (Path × Except Error Path))

/-- Each outcome is in the report once. -/
theorem length_ofOutcomes :
    (ofOutcomes outcomes).written.length + (ofOutcomes outcomes).failures.length =
      outcomes.length := by
  rw [ofOutcomes, List.length_mergeSort, List.length_mergeSort]
  induction outcomes with
  | nil => rfl
  | cons outcome rest ih =>
      rcases outcome with ⟨source, error | path⟩ <;>
        simp only [List.filterMap_cons, Except.toOption, List.length_cons] at ih ⊢ <;> omega

/-- The files that were written come in the order of their paths. -/
theorem pairwise_written : (ofOutcomes outcomes).written.Pairwise (·.precedes ·) :=
  List.pairwise_mergeSort Path.precedes_trans Path.precedes_total _

/-- The pages that failed come in the order of their paths. -/
theorem pairwise_failures :
    ((ofOutcomes outcomes).failures.map Failure.source).Pairwise (·.precedes ·) := by
  rw [List.pairwise_map, ofOutcomes]
  apply List.pairwise_mergeSort
  · intro first second third
    exact Path.precedes_trans first.source second.source third.source
  · intro first second
    exact Path.precedes_total first.source second.source

end Report

/-- The output of a build is written. -/
def Stage.HasWritten : Stage → Prop
  | written _ => True
  | done (.ok _) => True
  | _ => False

theorem Stage.not_hasWritten_map {α : Type} {outcome : Except Error α} {next : α → Stage}
    (unwritten : ∀ a, ¬(next a).HasWritten) : ¬(ofOutcome (outcome.map next)).HasWritten := by
  cases outcome with
  | error error => exact id
  | ok a => exact unwritten a

/-- A turn after which the output is written has written it, or it was written before. -/
theorem Site.hasWritten_turn {site : Site} {page : Place} {stage : Stage}
    (absolute : site.project.layout.Absolute) (pageAbsolute : page.Absolute)
    (plain : site.disk.Plain) (wrote : (site.turn page stage).1.HasWritten) :
    stage.HasWritten ∨ ∃ rendered location, stage = .prepared rendered ∧
      site.project.layout.outputPath page = (Place.mk .root location).toPath ∧
        Place.Reachable ⟨.root, location⟩ ∧
          (site.turn page stage).2.disk.get? location = some (.file rendered.content.toUTF8) := by
  cases stage with
  | written rendered => exact .inl trivial
  | done outcome => exact .inl wrote
  | waiting =>
      rw [turn] at wrote
      exact absurd wrote (Stage.not_hasWritten_map fun _ => id)
  | rendered rendered =>
      rw [turn] at wrote
      dsimp only at wrote
      generalize (site.disk.makeParents _).1.mapError _ = made at wrote
      exact absurd wrote (Stage.not_hasWritten_map fun _ => id)
  | prepared rendered =>
      right
      rw [turn] at wrote
      dsimp only at wrote
      obtain ⟨above, html?, lands⟩ := Layout.exists_lands absolute pageAbsolute
      rw [lands.destination] at wrote
      cases written : site.disk.write (site.project.layout.outputPath page)
          rendered.content.toUTF8 with
      | error fault =>
          rw [written] at wrote
          exact wrote.elim
      | ok after =>
          obtain ⟨html, -, -, path, -, held⟩ := lands.of_write plain written
          refine ⟨rendered, _, rfl, path, ?_, ?_⟩
          · rw [path] at written
            exact (Disk.of_write plain (Place.absolute_root _) written).2.2.1
          · rw [turn, lands.destination, written]
            exact held

namespace Batch

variable {first : Site} {sources : List Path} {schedule : List Nat} {location : Disk.Location}
  {content : ByteArray}

/-- What a page was rendered to during a batch goes to a location. -/
def Supplies (first : Site) (sources : List Path) (schedule : List Nat)
    (location : Disk.Location) (content : ByteArray) : Prop :=
  ∃ number source rendered earlier later, sources[number]? = some source ∧
    first.project.layout.outputPath (first.place source) = (Place.mk .root location).toPath ∧
      content = rendered.content.toUTF8 ∧ schedule = earlier ++ number :: later ∧
        let batch := (start first sources).follow earlier
        batch.site.project.render batch.site.disk (first.place source) = .ok rendered

theorem Supplies.append (supplies : Supplies first sources schedule location content)
    (more : List Nat) : Supplies first sources (schedule ++ more) location content := by
  obtain ⟨number, source, rendered, earlier, later, asked, path, same, rfl, ran⟩ := supplies
  exact ⟨number, source, rendered, earlier, later ++ more, asked, path, same, by simp, ran⟩

/-- At the place of the output of a page is what a page of the batch was rendered to. -/
def Shows (first : Site) (sources : List Path) (schedule : List Nat) (disk : Disk)
    (source : Path) : Prop :=
  ∃ location content,
    first.project.layout.outputPath (first.place source) = (Place.mk .root location).toPath ∧
      Place.Reachable ⟨.root, location⟩ ∧ disk.get? location = some (.file content) ∧
        Supplies first sources schedule location content

theorem Shows.append {disk : Disk} {source : Path}
    (shown : Shows first sources schedule disk source) (more : List Nat) :
    Shows first sources (schedule ++ more) disk source := by
  obtain ⟨location, content, path, reachable, there, supplies⟩ := shown
  exact ⟨location, content, path, reachable, there, supplies.append more⟩

/-- What is there stays there, or is replaced by what another page was rendered to. -/
theorem Shows.later {before after : Disk} {made : Disk.Location → Prop} {source : Path}
    (shown : Shows first sources schedule before source)
    (develops : Disk.Develops made (Supplies first sources schedule) before after) :
    Shows first sources schedule after source := by
  obtain ⟨location, content, path, reachable, held, supplies⟩ := shown
  rcases develops.get? location with same | ⟨missing, -⟩ | ⟨other, -, there, also⟩
  · exact ⟨location, content, path, reachable, same.trans held, supplies⟩
  · rw [missing] at held
    cases held
  · exact ⟨location, other, path, reachable, there, also⟩

/-- A batch has made directories on the way to outputs, and has written outputs of pages that it has
rendered.  The outputs that it has written are there. -/
structure Leaves (first : Site) (sources : List Path) (schedule : List Nat) (batch : Batch) :
    Prop where
  disk : Disk.Develops first.project.layout.OnTheWay (Supplies first sources schedule) first.disk
    batch.site.disk
  outputs : ∀ task ∈ batch.tasks, task.stage.HasWritten →
    Shows first sources schedule batch.site.disk task.source

theorem leaves_start (first : Site) (sources : List Path) :
    (start first sources).Leaves first sources [] := by
  refine ⟨.refl _ _ _, fun task member wrote => ?_⟩
  obtain ⟨source, -, rfl⟩ := List.mem_map.mp member
  exact wrote.elim

theorem Leaves.append {batch : Batch} (leaves : batch.Leaves first sources schedule)
    (more : List Nat) : batch.Leaves first sources (schedule ++ more) := by
  constructor
  · exact leaves.disk.mono (fun _ => id) fun _ _ supplies => supplies.append more
  · exact fun task member wrote => (leaves.outputs task member wrote).append more

/-- What a task is about to write is supplied by the batch. -/
theorem supplies_of_prepared {number : Nat} {task : Task} {rendered : Rendered}
    (held : ((start first sources).follow schedule).tasks[number]? = some task)
    (stage : task.stage = .prepared rendered)
    (path : first.project.layout.outputPath (first.place task.source) =
      (Place.mk .root location).toPath) :
    Supplies first sources schedule location rendered.content.toUTF8 := by
  obtain ⟨earlier, later, rfl, ran⟩ :=
    follow_renders first sources schedule number task rendered held (by rw [stage, Stage.page?])
  have asked : sources[number]? = some task.source := by
    rw [← sources_start first sources (earlier ++ number :: later), List.getElem?_map, held]
    rfl
  dsimp only at ran
  rw [place_follow] at ran
  exact ⟨number, task.source, rendered, earlier, later, asked, path, rfl, rfl, ran⟩

/-- A turn goes on with what a batch leaves. -/
theorem leaves_advance (absolute : first.project.layout.Absolute) (plain : first.disk.Plain)
    (leaves : ((start first sources).follow schedule).Leaves first sources schedule)
    (number : Nat) :
    (((start first sources).follow schedule).advance number).Leaves first sources
      (schedule ++ [number]) := by
  apply Leaves.append
  cases held : ((start first sources).follow schedule).tasks[number]? with
  | none => rwa [advance_of_none held]
  | some task =>
      have supplied := @supplies_of_prepared first sources schedule
      have layout := layout_follow (start first sources) schedule
      have place := place_follow (start first sources) schedule task.source
      have pageAbsolute : (first.place task.source).Absolute := absolute.root.resolve task.source
      rw [advance_of_task held, place]
      generalize (start first sources).follow schedule = batch at *
      have same : batch.site.project.layout = first.project.layout := layout
      have absoluteNow : batch.site.project.layout.Absolute := by rwa [same]
      have plainNow := leaves.disk.plain plain
      have develops : Disk.Develops first.project.layout.OnTheWay
          (Supplies first sources schedule) batch.site.disk
            (batch.site.turn (first.place task.source) task.stage).2.disk := by
        have turned := Site.develops_turn absoluteNow pageAbsolute plainNow task.stage
        rw [same] at turned
        refine turned.mono (fun _ => id) ?_
        rintro location content ⟨rendered, stage, rfl, path, -⟩
        exact supplied held stage path
      refine ⟨leaves.disk.trans develops, fun other member wrote => ?_⟩
      rcases List.mem_or_eq_of_mem_set member with old | rfl
      · exact (leaves.outputs other old wrote).later develops
      -- The task has written its output in this turn, or it had written it before.
      · rcases Site.hasWritten_turn absoluteNow pageAbsolute plainNow wrote with
          wrote | ⟨rendered, location, stage, path, reachable, there⟩
        · exact (leaves.outputs task (List.mem_of_getElem? held) wrote).later develops
        · rw [same] at path
          exact ⟨location, _, path, reachable, there, supplied held stage path⟩

/-- What a batch leaves, in whatever order the turns are taken. -/
theorem leaves_follow (absolute : first.project.layout.Absolute) (plain : first.disk.Plain)
    (schedule : List Nat) :
    ((start first sources).follow schedule).Leaves first sources schedule := by
  refine follow_induction (fun schedule batch => batch.Leaves first sources schedule)
    (leaves_start first sources) (fun _ next leaves => ?_) schedule
  exact leaves_advance absolute plain leaves next

/-- The path of an output that a batch reports is the one that its page has. -/
theorem path_of_done (first : Site) (sources : List Path) (schedule : List Nat) {task : Task}
    {path : Path} (member : task ∈ ((start first sources).follow schedule).tasks)
    (done : task.stage = .done (.ok path)) :
    path = first.project.layout.destination (first.place task.source) := by
  have all : ∀ task ∈ ((start first sources).follow schedule).tasks, ∀ path,
      task.stage = .done (.ok path) →
        path = ((start first sources).follow schedule).site.project.layout.destination
          (((start first sources).follow schedule).site.place task.source) := by
    refine follow_keeps (fun batch => ∀ task ∈ batch.tasks, ∀ path,
      task.stage = .done (.ok path) →
        path = batch.site.project.layout.destination (batch.site.place task.source))
      (fun batch number task kept held => ?_) (fun task member path done => ?_) schedule
    · have changed := batch.site.project_turn_cases (batch.site.place task.source) task.stage
      have layout := batch.site.layout_turn (batch.site.place task.source) task.stage
      rw [advance_of_task held]
      generalize batch.site.turn (batch.site.place task.source) task.stage = next at *
      intro other also path done
      rw [Site.place, layout]
      rcases List.mem_or_eq_of_mem_set also with old | rfl
      · exact kept other old path done
      · rcases changed with ⟨rendered, -, rfl⟩ | ⟨-, ends⟩
        · cases done
          rfl
        · exact kept task (List.mem_of_getElem? held) path ((ends path).mp done)
    · obtain ⟨source, -, rfl⟩ := List.mem_map.mp member
      cases done
  have own := all task member path done
  rwa [layout_follow, place_follow] at own

/-- A finished batch accounts for all of its pages. -/
structure Accounts (first : Site) (sources : List Path) (schedule : List Nat) (batch : Batch) :
    Prop where
  /-- Each page that was asked for has one outcome. -/
  once : batch.outcomes.map Prod.fst = sources
  written : batch.report.written.Perm (batch.outcomes.filterMap fun outcome => outcome.2.toOption)
  failures : batch.report.failures.Perm (batch.outcomes.filterMap fun
    | (source, .error error) => some ⟨source, error⟩
    | (_, .ok _) => none)
  total : batch.report.written.length + batch.report.failures.length = sources.length
  sorted : batch.report.written.Pairwise (·.precedes ·) ∧
    (batch.report.failures.map Failure.source).Pairwise (·.precedes ·)
  /-- An output that is reported is there, as a page that goes there was rendered. -/
  there : ∀ source path, (source, .ok path) ∈ batch.outcomes →
    path = first.project.layout.outputPath (first.place source) ∧
      ∃ location content, path = (Place.mk .root location).toPath ∧
        batch.site.disk.read path = .ok (.file content) ∧
          Supplies first sources schedule location content

theorem mem_outcomes {batch : Batch} {source : Path} {outcome : Except Error Path} :
    (source, outcome) ∈ batch.outcomes ↔
      ∃ task ∈ batch.tasks, task.source = source ∧ task.stage = .done outcome ∧
        Error.ends outcome = true := by
  rw [outcomes, List.mem_filterMap]
  refine exists_congr fun task => and_congr_right fun _ => ?_
  cases stage : task.stage <;> simp [Stage.outcome?]
  grind

/-- In a finished batch each task has an outcome. -/
theorem sources_outcomes {batch : Batch} (finished : batch.Finished) :
    batch.outcomes.map Prod.fst = batch.tasks.map Task.source := by
  unfold outcomes
  unfold Finished at finished
  generalize batch.tasks = tasks at finished ⊢
  induction tasks with
  | nil => rfl
  | cons task rest ih =>
      obtain ⟨outcome, ended⟩ := Option.isSome_iff_exists.mp (finished task List.mem_cons_self)
      have others := ih fun other member => finished other (List.mem_cons_of_mem _ member)
      rw [List.filterMap_cons, ended, List.map_cons, ← others]
      rfl

/-- In whatever order the turns were taken, a finished batch accounts for its pages. -/
theorem accounts_of_finished (absolute : first.project.layout.Absolute)
    (plain : first.disk.Plain) (finished : ((start first sources).follow schedule).Finished) :
    ((start first sources).follow schedule).Accounts first sources schedule := by
  have leaves := @leaves_follow first sources absolute plain schedule
  have paths := @path_of_done first sources schedule
  have once := (sources_outcomes finished).trans (sources_start first sources schedule)
  generalize (start first sources).follow schedule = batch at *
  refine ⟨once, List.mergeSort_perm _ _, List.mergeSort_perm _ _, ?_,
    ⟨Report.pairwise_written _, Report.pairwise_failures _⟩, fun source path member => ?_⟩
  · rw [report, Report.length_ofOutcomes, ← once, List.length_map]
  · obtain ⟨task, there, rfl, done, -⟩ := mem_outcomes.mp member
    have placed : (first.place task.source).Absolute := absolute.root.resolve task.source
    have own := paths there done
    rw [Layout.destination_eq placed] at own
    obtain ⟨location, content, landed, reachable, held, supplies⟩ :=
      leaves.outputs task there (by rw [done]; trivial)
    refine ⟨own, location, content, own.trans landed, ?_, supplies⟩
    rw [own, landed]
    exact (Disk.read_toPath (leaves.disk.plain plain) (Place.absolute_root _) _).mpr
      ⟨reachable, held⟩

end Batch

end Project

end Stencil
