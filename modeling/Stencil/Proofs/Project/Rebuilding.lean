import Stencil.Proofs.Disk.Sparing
import Stencil.Proofs.Project.Batches
import Stencil.Proofs.Project.Landing
import Stencil.Proofs.Project.Records

/-!
# Building again

The builds of a batch look beside the directory of the output, and each has an output of its own.  So
a build that has come to some stage would come there again on the disk as it is, and would change
nothing on the way.  This stays so while the other builds go on.  Once the batch is finished, a second
one from the same beginning comes to the same end.
-/

namespace Stencil.Project

open Render

variable {first site : Site} {sources : List Path} {source : Path} {disk before after : Disk}
  {page : Place} {stage : Stage}

/-- What the builds of pages write, each at the place of its output. -/
def Site.Outputs (first : Site) (sources : List Path) (location : Disk.Location)
    (content : ByteArray) : Prop :=
  ∃ source ∈ sources, ∃ rendered,
    first.project.render first.disk (first.place source) = .ok rendered ∧
      content = rendered.content.toUTF8 ∧
        first.project.layout.outputPath (first.place source) = (Place.mk .root location).toPath ∧
          first.project.layout.outDir.names <+: location

/-- The pages of a batch are there, the builds look beside the directory of the output, and each has
an output of its own. -/
structure Site.Beside (first : Site) (sources : List Path) : Prop where
  plain : first.disk.Plain
  absolute : first.project.layout.Absolute
  there : ∀ source ∈ sources, (first.disk.get? (first.place source).names).isSome
  outside : ∀ source ∈ sources, first.project.layout.Outside (first.place source).names
  unread : ∀ source ∈ sources, ∀ place ∈ first.candidates source,
    ¬place.Within first.project.layout.outDir
  distinct : ∀ source ∈ sources, ∀ other ∈ sources,
    first.project.layout.outputPath (first.place source) =
      first.project.layout.outputPath (first.place other) →
        first.place source = first.place other

/-- The builds of pages may develop one disk into another. -/
def Site.Develops (first : Site) (sources : List Path) (before after : Disk) : Prop :=
  Disk.Develops first.project.layout.OnTheWay (first.Outputs sources) before after

/-- The build of a page has come to a stage, and would come there again on the disk as it is, with
nothing changed on the way. -/
inductive Stage.Retraced (first : Site) (page : Place) (disk : Disk) : Stage → Prop
  | waiting : Retraced first page disk .waiting
  | rendered {rendered : Rendered} :
      first.project.render first.disk page = .ok rendered →
      Retraced first page disk (.rendered rendered)
  | prepared {rendered : Rendered} :
      first.project.render first.disk page = .ok rendered →
      disk.makeParents (first.project.layout.outputPath page) = (.ok (), disk) →
      Retraced first page disk (.prepared rendered)
  | written {rendered : Rendered} :
      first.project.render first.disk page = .ok rendered →
      disk.makeParents (first.project.layout.outputPath page) = (.ok (), disk) →
      disk.write (first.project.layout.outputPath page) rendered.content.toUTF8 = .ok disk →
      Retraced first page disk (.written rendered)
  | done {rendered : Rendered} :
      first.project.render first.disk page = .ok rendered →
      disk.makeParents (first.project.layout.outputPath page) = (.ok (), disk) →
      disk.write (first.project.layout.outputPath page) rendered.content.toUTF8 = .ok disk →
      Retraced first page disk (.done (.ok (first.project.layout.outputPath page)))
  | unrendered {error : Error} :
      first.project.render first.disk page = .error error →
      Retraced first page disk (.done (.error error))
  | unprepared {rendered : Rendered} {fault : Disk.Fault} :
      first.project.render first.disk page = .ok rendered →
      disk.makeParents (first.project.layout.outputPath page) = (.error fault, disk) →
      Retraced first page disk (.done (.error (.disk fault)))
  | unwritten {rendered : Rendered} {fault : Disk.Fault} :
      first.project.render first.disk page = .ok rendered →
      disk.makeParents (first.project.layout.outputPath page) = (.ok (), disk) →
      disk.write (first.project.layout.outputPath page) rendered.content.toUTF8 = .error fault →
      Retraced first page disk (.done (.error (.disk fault)))

/-- A build comes to one end only. -/
theorem Stage.Retraced.unique {outcome other : Except Error Path}
    (retraced : (Stage.done outcome).Retraced first page disk)
    (also : (Stage.done other).Retraced first page disk) : outcome = other := by
  cases retraced <;> cases also <;> simp_all

/-- A build that has come to its end on a disk changes nothing on the way there. -/
theorem Stage.Retraced.disk_turn {outcome : Except Error Path} (pageAbsolute : page.Absolute)
    (final : (Stage.done outcome).Retraced first page site.disk)
    (layout : site.project.layout = first.project.layout)
    (retraced : stage.Retraced first page site.disk) :
    (site.turn page stage).2.disk = site.disk := by
  cases retraced with
  | rendered ran =>
      rw [Site.turn, layout, Layout.destination_eq pageAbsolute]
      cases final <;> simp_all
  | prepared ran made =>
      rw [Site.turn, layout, Layout.destination_eq pageAbsolute]
      cases final <;> simp_all [Except.toOption]
  | _ => rfl

/-- Builds write no file outside of the directory of the output. -/
theorem Site.Outputs.not_outside {location : Disk.Location} {content : ByteArray}
    (outputs : first.Outputs sources location content) : ¬first.project.layout.Outside location := by
  obtain ⟨-, -, -, -, -, -, within⟩ := outputs
  exact fun outside => outside within

namespace Site.Beside

variable (beside : first.Beside sources) (member : source ∈ sources)

include beside

theorem place_absolute (source : Path) : (first.place source).Absolute :=
  beside.absolute.root.resolve source

theorem plain_of_develops (develops : first.Develops sources first.disk disk) : disk.Plain :=
  develops.plain beside.plain

include member

/-- A page renders as it did at first, whatever the builds have written. -/
theorem render (develops : first.Develops sources first.disk disk) {project : Project}
    (layout : project.layout = first.project.layout)
    (templates : project.templates = first.project.templates) :
    project.render disk (first.place source) =
      first.project.render first.disk (first.place source) := by
  have also := beside.plain_of_develops develops
  rw [render_eq_of_same layout templates]
  apply render_of_answers
  · have there := beside.there source member
    have outside := beside.outside source member
    exact Disk.readText_of_there beside.plain also (beside.place_absolute source) there
      (develops.get?_of_there there fun _ outputs => outputs.not_outside outside)
  · intro path looked
    cases kind : first.project.templates with
    | library library => simp only [Project.library, kind]
    | files =>
        simp only [Project.library, kind] at looked ⊢
        have candidate : first.project.layout.root.resolve path ∈ first.candidates source := by
          rw [Site.candidates, kind]
          exact looked
        have outside := beside.unread source member _ candidate
        rw [(beside.absolute.root.resolve path).within_iff beside.absolute.outDir] at outside
        exact Template.Library.fetch_below_congr beside.plain also beside.absolute.root path
          (develops.file? fun _ outputs => outputs.not_outside outside)

/-- An output that was written stays as it is. -/
theorem write_later (plain : before.Plain) (develops : first.Develops sources before after)
    {rendered : Rendered}
    (ran : first.project.render first.disk (first.place source) = .ok rendered)
    (wrote : before.write (first.project.layout.outputPath (first.place source))
      rendered.content.toUTF8 = .ok before) :
    after.write (first.project.layout.outputPath (first.place source)) rendered.content.toUTF8 =
      .ok after := by
  obtain ⟨above, html?, lands⟩ :=
    Layout.exists_lands beside.absolute (beside.place_absolute source)
  apply lands.write_again plain wrote (develops.plain plain)
  intro location path held
  rcases develops.get? location with same | ⟨missing, -, -⟩ |
    ⟨content, -, found, other, also, rerendered, reran, rfl, otherPath, -⟩
  · exact same.trans held
  · rw [missing] at held
    cases held
  · have same := beside.distinct source member other also (path.trans otherPath.symm)
    rw [← same, ran] at reran
    obtain rfl := Except.ok.inj reran
    exact found

/-- A stage that was retraced is retraced later on. -/
theorem retraced_later (plain : before.Plain) (develops : first.Develops sources before after)
    (retraced : stage.Retraced first (first.place source) before) :
    stage.Retraced first (first.place source) after := by
  obtain ⟨above, html?, lands⟩ :=
    Layout.exists_lands beside.absolute (beside.place_absolute source)
  have later : ∀ outcome, before.makeParents (first.project.layout.outputPath
      (first.place source)) = (outcome, before) →
        after.makeParents (first.project.layout.outputPath (first.place source)) =
          (outcome, after) :=
    fun _ ready => lands.makeParents_later plain develops ready
  cases retraced with
  | waiting => exact .waiting
  | rendered ran => exact .rendered ran
  | prepared ran made => exact .prepared ran (later _ made)
  | written ran made wrote =>
      exact .written ran (later _ made) (beside.write_later member plain develops ran wrote)
  | done ran made wrote =>
      exact .done ran (later _ made) (beside.write_later member plain develops ran wrote)
  | unrendered failed => exact .unrendered failed
  | unprepared ran failed => exact .unprepared ran (later _ failed)
  | unwritten ran made failed =>
      exact .unwritten ran (later _ made) (lands.write_later plain develops made failed)

section Turns

variable (layout : site.project.layout = first.project.layout)
  (templates : site.project.templates = first.project.templates)
  (led : first.Develops sources first.disk site.disk)
  (retraced : stage.Retraced first (first.place source) site.disk)

include layout led retraced

theorem develops_turn :
    first.Develops sources site.disk (site.turn (first.place source) stage).2.disk := by
  have plain := beside.plain_of_develops led
  have absolute : site.project.layout.Absolute := by
    rw [layout]
    exact beside.absolute
  have develops := site.develops_turn absolute (beside.place_absolute source) plain stage
  rw [layout] at develops
  refine develops.mono (fun _ => id) ?_
  rintro location content ⟨rendered, rfl, same, path, within, -⟩
  cases retraced with
  | prepared ran made => exact ⟨source, member, rendered, ran, same, path, within⟩

include templates

/-- A turn leads to a stage that is retraced on the disk after the turn. -/
theorem retraced_turn : (site.turn (first.place source) stage).1.Retraced first
    (first.place source) (site.turn (first.place source) stage).2.disk := by
  have plain := beside.plain_of_develops led
  have later := beside.retraced_later member plain (beside.develops_turn member layout led retraced)
    retraced
  obtain ⟨above, html?, lands⟩ :=
    Layout.exists_lands beside.absolute (beside.place_absolute source)
  cases retraced with
  | waiting =>
      rw [Site.turn, beside.render member led layout templates]
      cases ran : first.project.render first.disk (first.place source) with
      | error error => exact .unrendered ran
      | ok rendered => exact .rendered ran
  | rendered ran =>
      rw [Site.turn, layout, Layout.destination_eq (beside.place_absolute source)]
      dsimp only
      cases made : site.disk.makeParents (first.project.layout.outputPath (first.place source)) with
      | mk outcome after =>
          have again := lands.makeParents_again plain made
          cases outcome with
          | error fault => exact .unprepared ran again
          | ok _ => exact .prepared ran again
  | prepared ran made =>
      rw [Site.turn, layout, Layout.destination_eq (beside.place_absolute source)] at later ⊢
      dsimp only at later ⊢
      generalize wrote : site.disk.write _ _ = outcome at later ⊢
      cases outcome with
      | error fault => exact .unwritten ran made wrote
      | ok after =>
          cases later with
          | prepared _ madeLater =>
              refine .written ran madeLater ?_
              obtain ⟨_, _, _, _, develops, _⟩ := lands.of_write plain wrote
              exact lands.write_again plain wrote (develops.plain plain) fun _ _ => id
  | written ran made wrote =>
      rw [Site.turn, layout, Layout.destination_eq (beside.place_absolute source)]
      exact .done ran made wrote
  | done ran made wrote => exact later
  | unrendered failed => exact later
  | unprepared ran failed => exact later
  | unwritten ran made failed => exact later

end Turns

end Site.Beside

/-- What is remembered of a page that was built. -/
def Site.remembered (first : Site) (page : Place) : Option Page :=
  first.project.pages[page]?.map fun held =>
    match first.project.render first.disk page with
    | .ok rendered => { held with dependencies := rendered.dependencies }
    | .error _ => held

/-- All builds of a batch have come to stages that are retraced, and the site remembers those that
have succeeded. -/
structure Batch.Retraces (first : Site) (sources : List Path) (batch : Batch) : Prop where
  layout : batch.site.project.layout = first.project.layout
  templates : batch.site.project.templates = first.project.templates
  led : first.Develops sources first.disk batch.site.disk
  asked : batch.tasks.map Task.source = sources
  tasks : ∀ task ∈ batch.tasks,
    task.stage.Retraced first (first.place task.source) batch.site.disk
  built : ∀ task ∈ batch.tasks, ∀ path, task.stage = .done (.ok path) →
    batch.site.project.pages[first.place task.source]? = first.remembered (first.place task.source)
  kept : ∀ page, batch.site.project.pages[page]? = first.project.pages[page]? ∨
    ∃ task ∈ batch.tasks, ∃ path, task.stage = .done (.ok path) ∧ first.place task.source = page

namespace Batch.Retraces

variable {batch : Batch}

/-- A batch on a disk to which builds have led. -/
theorem start (led : first.Develops sources first.disk disk) :
    (Batch.start ⟨first.project, disk⟩ sources).Retraces first sources := by
  have waits : ∀ task ∈ (Batch.start ⟨first.project, disk⟩ sources).tasks, task.stage = .waiting := by
    intro task member
    obtain ⟨source, -, rfl⟩ := List.mem_map.mp member
    rfl
  refine ⟨rfl, rfl, led, ?_, fun task member => ?_, fun task member path built => ?_,
    fun _ => .inl rfl⟩
  · rw [Batch.start, List.map_map]
    exact List.map_id _
  · rw [waits task member]
    exact .waiting
  · rw [waits task member] at built
    cases built

/-- What is remembered of a page that was built is remembered again when it is built again. -/
theorem record_eq {project : Project} {rendered : Rendered}
    (ran : first.project.render first.disk page = .ok rendered)
    (known : project.pages[page]? = first.project.pages[page]? ∨
      project.pages[page]? = first.remembered page) :
    (project.record page rendered.dependencies).pages[page]? = first.remembered page := by
  rw [getElem?_record, if_pos rfl]
  unfold Site.remembered at known ⊢
  rw [ran] at known ⊢
  rcases known with same | same
  · rw [same]
  · rw [same, Option.map_map]
    rfl

variable (retraces : batch.Retraces first sources)

include retraces

theorem place (source : Path) : batch.site.place source = first.place source := by
  rw [Site.place, Site.place, retraces.layout]

theorem mem_sources {task : Task} (member : task ∈ batch.tasks) : task.source ∈ sources := by
  rw [← retraces.asked]
  exact List.mem_map_of_mem member

/-- A page is remembered as at first, or as it was built. -/
theorem known (page : Place) : batch.site.project.pages[page]? = first.project.pages[page]? ∨
    batch.site.project.pages[page]? = first.remembered page := by
  rcases retraces.kept page with same | ⟨task, member, path, done, rfl⟩
  · exact .inl same
  · exact .inr (retraces.built task member path done)

section Advance

variable (beside : first.Beside sources) {number : Nat} {task : Task}
  (held : batch.tasks[number]? = some task)

include beside held

theorem develops_advance :
    first.Develops sources batch.site.disk (batch.advance number).site.disk := by
  have member := List.mem_of_getElem? held
  rw [Batch.advance_of_task held, retraces.place]
  exact beside.develops_turn (retraces.mem_sources member) retraces.layout retraces.led
    (retraces.tasks task member)

theorem advance : (batch.advance number).Retraces first sources := by
  have member := List.mem_of_getElem? held
  have inside := (List.getElem?_eq_some_iff.mp held).1
  have asked := (Batch.sources_follow batch [number]).trans retraces.asked
  have develops := retraces.develops_advance beside held
  have plain := beside.plain_of_develops retraces.led
  have turned := beside.retraced_turn (retraces.mem_sources member) retraces.layout
    retraces.templates retraces.led (retraces.tasks task member)
  have changed := batch.site.project_turn_cases (first.place task.source) task.stage
  have step := Batch.advance_of_task held
  rw [retraces.place] at step
  have moved : batch.follow [number] = batch.advance number := rfl
  rw [moved, step] at asked
  rw [step] at develops ⊢
  generalize after : batch.site.turn (first.place task.source) task.stage = next at *
  refine ⟨?_, ?_, retraces.led.trans develops, asked, ?_, ?_, ?_⟩
  · rw [← after, Site.layout_turn, retraces.layout]
  · rw [← after, Site.templates_turn, retraces.templates]
  · intro other also
    rcases List.mem_or_eq_of_mem_set also with old | rfl
    · exact beside.retraced_later (retraces.mem_sources old) plain develops (retraces.tasks other old)
    · exact turned
  · intro other also path done
    rcases changed with ⟨rendered, stage, rfl⟩ | ⟨same, ends⟩
    · have own := retraces.tasks task member
      rw [stage] at own
      cases own with
      | written ran =>
          by_cases place : first.place task.source = first.place other.source
          · rw [← place]
            exact record_eq ran (retraces.known _)
          · dsimp only
            rw [getElem?_record, if_neg place]
            rcases List.mem_or_eq_of_mem_set also with old | rfl
            · exact retraces.built other old path done
            · exact absurd rfl place
    · rw [same]
      rcases List.mem_or_eq_of_mem_set also with old | rfl
      · exact retraces.built other old path done
      · exact retraces.built task member path ((ends path).mp done)
  · intro page
    have stays := fun {other} also => @Batch.mem_set_or_eq number task batch.tasks other also held
      { task with stage := next.1 }
    rcases changed with ⟨rendered, stage, rfl⟩ | ⟨same, ends⟩
    · by_cases place : first.place task.source = page
      · exact .inr ⟨_, List.mem_set inside _, _, rfl, place⟩
      · dsimp only
        rw [getElem?_record, if_neg place]
        rcases retraces.kept page with same | ⟨other, also, path, done, atPage⟩
        · exact .inl same
        · rcases stays also with still | rfl
          · exact .inr ⟨other, still, path, done, atPage⟩
          · exact absurd atPage place
    · rw [same]
      rcases retraces.kept page with same | ⟨other, also, path, done, atPage⟩
      · exact .inl same
      · rcases stays also with still | rfl
        · exact .inr ⟨other, still, path, done, atPage⟩
        · exact .inr ⟨_, List.mem_set inside _, path, (ends path).mpr done, atPage⟩

end Advance

theorem follow (beside : first.Beside sources) (schedule : List Nat) :
    (batch.follow schedule).Retraces first sources := by
  refine Batch.follow_keeps (Batch.Retraces first sources) ?_ retraces schedule
  exact fun _ _ _ before held => before.advance beside held

/-- A disk on which all builds have come to their ends stays as it is. -/
theorem disk_follow (beside : first.Beside sources)
    (final : ∀ source ∈ sources, ∃ outcome,
      (Stage.done outcome).Retraced first (first.place source) batch.site.disk)
    (schedule : List Nat) : (batch.follow schedule).site.disk = batch.site.disk := by
  refine (Batch.follow_keeps (fun later =>
    later.Retraces first sources ∧ later.site.disk = batch.site.disk) ?_ ⟨retraces, rfl⟩ schedule).2
  rintro later number task ⟨before, same⟩ held
  refine ⟨before.advance beside held, ?_⟩
  have member := List.mem_of_getElem? held
  obtain ⟨outcome, done⟩ := final task.source (before.mem_sources member)
  rw [← same] at done ⊢
  rw [Batch.advance_of_task held, before.place]
  exact done.disk_turn (beside.place_absolute task.source) before.layout (before.tasks task member)

/-- Batches on one disk that have stopped have come to one end. -/
theorem unique {other : Batch} (also : other.Retraces first sources)
    (disk : other.site.disk = batch.site.disk) (stopped : batch.Stopped)
    (otherStopped : other.Stopped) : other = batch := by
  have tasks : other.tasks = batch.tasks := by
    have asked := also.asked.trans retraces.asked.symm
    apply List.ext_getElem (by simpa using congrArg List.length asked)
    intro number inside within
    have source : other.tasks[number].source = batch.tasks[number].source := by
      simpa [List.getElem?_eq_getElem, inside, within] using congrArg (·[number]?) asked
    have there := List.getElem_mem within
    have otherThere := List.getElem_mem inside
    obtain ⟨outcome, done⟩ := stopped _ there
    obtain ⟨otherOutcome, otherDone⟩ := otherStopped _ otherThere
    have retraced := retraces.tasks _ there
    have otherRetraced := also.tasks _ otherThere
    rw [done] at retraced
    rw [otherDone, source, disk] at otherRetraced
    have stage : other.tasks[number].stage = batch.tasks[number].stage := by
      rw [done, otherDone, otherRetraced.unique retraced]
    generalize other.tasks[number] = first at source stage ⊢
    generalize batch.tasks[number] = second at source stage ⊢
    cases first
    cases second
    simp_all
  have pages : other.site.project.pages = batch.site.project.pages := by
    apply Std.ExtTreeMap.ext_getElem?
    intro page
    rcases also.kept page with otherSame | ⟨task, member, path, done, rfl⟩
    · rcases retraces.kept page with same | ⟨task, member, path, done, rfl⟩
      · rw [otherSame, same]
      · rw [retraces.built task member path done]
        exact also.built task (tasks ▸ member) path done
    · rw [also.built task member path done]
      exact (retraces.built task (tasks ▸ member) path done).symm
  have layout := also.layout.trans retraces.layout.symm
  have templates := also.templates.trans retraces.templates.symm
  rcases batch with ⟨⟨⟨_, _, _⟩, _⟩, _⟩
  rcases other with ⟨⟨⟨_, _, _⟩, _⟩, _⟩
  simp_all

end Batch.Retraces

end Stencil.Project
