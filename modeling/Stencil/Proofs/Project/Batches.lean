import Stencil.Proofs.Project.Interleaving

/-!
# Batches in any order

Whatever the order of the turns, the tasks of a batch stay those that it was started with, and four
turns are enough for each of them.  What every turn keeps is kept in the end.
-/

namespace Stencil.Project

/-- The number of turns that are sure to have been taken. -/
def Stage.rank : Stage → Nat
  | waiting => 0
  | rendered _ => 1
  | prepared _ => 2
  | written _ => 3
  | done _ => 4

theorem Stage.rank_ofOutcome_map {α : Type} (outcome : Except Error α) {next : α → Stage}
    {least : Nat} (few : least ≤ 4) (further : ∀ a, least ≤ (next a).rank) :
    least ≤ (ofOutcome (outcome.map next)).rank := by
  cases outcome with
  | error error => exact few
  | ok a => exact further a

/-- A turn leads on, until the build is done. -/
theorem Site.rank_turn (site : Site) (page : Place) (stage : Stage) :
    min (stage.rank + 1) 4 ≤ (site.turn page stage).1.rank := by
  have few : min (stage.rank + 1) 4 ≤ 4 := Nat.min_le_right _ _
  cases stage with
  | written rendered => exact few
  | done outcome => exact few
  | _ =>
      rw [turn]
      dsimp only
      exact Stage.rank_ofOutcome_map _ few fun _ => Nat.min_le_left _ _

theorem Stage.ofOutcome_map_done {α : Type} {outcome : Except Error α} {next : α → Stage}
    {path : Path} (done : ofOutcome (outcome.map next) = .done (.ok path)) : ∃ a, next a = .done (.ok path) := by
  cases outcome with
  | error error => cases done
  | ok a => exact ⟨a, done⟩

/-- The project changes with the last turn of a build, and not otherwise. -/
theorem Site.project_turn_cases (site : Site) (page : Place) (stage : Stage) :
    (∃ rendered, stage = .written rendered ∧
        site.turn page stage = (.done (.ok (site.project.layout.destination page)),
          { site with project := site.project.record page rendered.dependencies })) ∨
      (site.turn page stage).2.project = site.project ∧
        ∀ path, (site.turn page stage).1 = .done (.ok path) ↔ stage = .done (.ok path) := by
  cases stage with
  | written rendered => exact .inl ⟨rendered, rfl, rfl⟩
  | done outcome => exact .inr ⟨rfl, fun _ => Iff.rfl⟩
  | _ =>
      right
      rw [turn]
      dsimp only
      refine ⟨rfl, fun path => ⟨fun done => ?_, fun done => by cases done⟩⟩
      obtain ⟨_, other⟩ := Stage.ofOutcome_map_done done
      cases other

namespace Batch

variable {batch : Batch} {number : Nat} {task : Task}

theorem advance_of_task (held : batch.tasks[number]? = some task) :
    batch.advance number =
      ⟨(batch.site.turn (batch.site.place task.source) task.stage).2,
        batch.tasks.set number
          { task with stage := (batch.site.turn (batch.site.place task.source) task.stage).1 }⟩ := by
  unfold advance
  rw [held]
  rfl

theorem advance_of_none (missing : batch.tasks[number]? = none) : batch.advance number = batch := by
  unfold advance
  rw [missing]

/-- A turn of a task leaves the other tasks as they are. -/
theorem mem_set_or_eq {tasks : List Task} {other : Task} (member : other ∈ tasks)
    (held : tasks[number]? = some task) (next : Task) :
    other ∈ tasks.set number next ∨ other = task := by
  obtain ⟨index, found⟩ := List.mem_iff_getElem?.mp member
  by_cases own : number = index
  · subst own
    exact .inr (Option.some.inj (found.symm.trans held))
  · left
    apply List.mem_of_getElem? (i := index)
    rw [List.getElem?_set_ne own, found]

theorem follow_concat (batch : Batch) (schedule : List Nat) (number : Nat) :
    batch.follow (schedule ++ [number]) = (batch.follow schedule).advance number := by
  rw [follow, List.foldl_append]
  rfl

/-- What is true at the start, and stays true with one more turn, is true after all turns. -/
theorem follow_induction {batch : Batch} (holds : List Nat → Batch → Prop)
    (begun : holds [] batch)
    (turns : ∀ schedule number, holds schedule (batch.follow schedule) →
      holds (schedule ++ [number]) ((batch.follow schedule).advance number))
    (schedule : List Nat) : holds schedule (batch.follow schedule) := by
  have onward : ∀ rest earlier, holds earlier (batch.follow earlier) →
      holds (earlier ++ rest) (batch.follow (earlier ++ rest)) := by
    intro rest
    induction rest with
    | nil => simp
    | cons number rest ih =>
        intro earlier before
        have next := turns earlier number before
        rw [← follow_concat] at next
        have all := ih (earlier ++ [number]) next
        rwa [List.append_assoc] at all
  exact onward schedule [] begun

/-- What the turns of all tasks keep is kept in whatever order they are taken. -/
theorem follow_keeps (kept : Batch → Prop)
    (turns : ∀ (batch : Batch) (number : Nat) (task : Task), kept batch →
      batch.tasks[number]? = some task → kept (batch.advance number))
    (begun : kept batch) (schedule : List Nat) : kept (batch.follow schedule) := by
  refine follow_induction (fun _ => kept) begun (fun earlier number before => ?_) schedule
  cases held : (batch.follow earlier).tasks[number]? with
  | none => rwa [advance_of_none held]
  | some task => exact turns _ number task before held

/-- The tasks of a batch are for the same pages all along. -/
theorem sources_follow (batch : Batch) (schedule : List Nat) :
    (batch.follow schedule).tasks.map Task.source = batch.tasks.map Task.source := by
  refine follow_keeps (fun later => later.tasks.map Task.source = batch.tasks.map Task.source)
    (fun later number task same held => ?_) rfl schedule
  rw [advance_of_task held, List.map_set, ← same]
  have own : (later.tasks.map Task.source)[number]? = some task.source := by
    rw [List.getElem?_map, held]
    rfl
  obtain ⟨inside, here⟩ := List.getElem?_eq_some_iff.mp own
  rw [← here]
  exact List.set_getElem_self inside

theorem sources_start (site : Site) (sources : List Path) (schedule : List Nat) :
    ((start site sources).follow schedule).tasks.map Task.source = sources := by
  rw [sources_follow, start, List.map_map]
  exact List.map_id _

/-- The layout is the same all along. -/
theorem layout_follow (batch : Batch) (schedule : List Nat) :
    (batch.follow schedule).site.project.layout = batch.site.project.layout := by
  refine follow_keeps (fun later => later.site.project.layout = batch.site.project.layout)
    (fun later number task same held => ?_) rfl schedule
  rw [advance_of_task held, Site.layout_turn, same]

/-- So pages are asked for at the same places. -/
theorem place_follow (batch : Batch) (schedule : List Nat) (source : Path) :
    (batch.follow schedule).site.place source = batch.site.place source := by
  rw [Site.place, Site.place, layout_follow]

/-- What is true of the disk stays so when it does with each turn for a page that was asked for. -/
theorem disk_follow (site : Site) (sources : List Path) (holds : Disk → Prop)
    (turns : ∀ (later : Site) (source : Path) (stage : Stage), source ∈ sources →
      later.project.layout = site.project.layout → holds later.disk →
        holds (later.turn (site.place source) stage).2.disk)
    (begun : holds site.disk) (schedule : List Nat) :
    holds ((start site sources).follow schedule).site.disk := by
  refine follow_induction (fun _ batch => holds batch.site.disk) begun
    (fun earlier number kept => ?_) schedule
  cases held : ((start site sources).follow earlier).tasks[number]? with
  | none => rwa [advance_of_none held]
  | some task =>
      have layout := layout_follow (start site sources) earlier
      have place := place_follow (start site sources) earlier task.source
      have asked : task.source ∈ sources := by
        rw [← sources_start site sources earlier]
        exact List.mem_map_of_mem (List.mem_of_getElem? held)
      rw [advance_of_task held, place]
      exact turns _ _ _ asked layout kept

/-- No page becomes known. -/
theorem knows_follow (batch : Batch) (schedule : List Nat) (page : Place) :
    (batch.follow schedule).site.project.knows page = batch.site.project.knows page := by
  refine follow_keeps (fun later => later.site.project.knows page = batch.site.project.knows page)
    (fun later number task same held => ?_) rfl schedule
  rw [advance_of_task held]
  rcases later.site.project_turn_cases (later.site.place task.source) task.stage with
    ⟨rendered, -, turned⟩ | ⟨kept, -⟩
  · rw [turned, knows_record, same]
  · rw [kept, same]

/-- What is remembered of a page stays until a build of it has succeeded. -/
theorem pages_follow (site : Site) (sources : List Path) (schedule : List Nat) (page : Place) :
    ((start site sources).follow schedule).site.project.pages[page]? = site.project.pages[page]? ∨
      ∃ task ∈ ((start site sources).follow schedule).tasks, site.place task.source = page ∧
        ∃ output, task.stage = .done (.ok output) := by
  refine follow_induction (fun _ batch => batch.site.project.pages[page]? =
      site.project.pages[page]? ∨ ∃ task ∈ batch.tasks, site.place task.source = page ∧
        ∃ output, task.stage = .done (.ok output)) (.inl rfl) (fun earlier number kept => ?_) schedule
  cases held : ((start site sources).follow earlier).tasks[number]? with
  | none => rwa [advance_of_none held]
  | some task =>
      have place : ((start site sources).follow earlier).site.place task.source =
        site.place task.source := place_follow (start site sources) earlier task.source
      rw [advance_of_task held, place]
      generalize (start site sources).follow earlier = batch at kept held ⊢
      dsimp only
      have inside := (List.getElem?_eq_some_iff.mp held).1
      have own := fun next : Task => List.mem_set inside next
      rcases batch.site.project_turn_cases (site.place task.source) task.stage with
        ⟨rendered, stage, turned⟩ | ⟨same, ends⟩
      · -- A build succeeds with this turn.
        rw [turned]
        by_cases built : site.place task.source = page
        · exact .inr ⟨_, own _, built, _, rfl⟩
        · rw [getElem?_record, if_neg built]
          refine kept.imp_right ?_
          rintro ⟨other, member, placed, output, done⟩
          rcases mem_set_or_eq member held _ with still | rfl
          · exact ⟨other, still, placed, output, done⟩
          · rw [stage] at done
            cases done
      · rw [same]
        refine kept.imp_right ?_
        rintro ⟨other, member, placed, output, done⟩
        rcases mem_set_or_eq member held _ with still | rfl
        · exact ⟨other, still, placed, output, done⟩
        · exact ⟨_, own _, placed, output, (ends output).mpr done⟩

/-- Tasks get on with their turns. -/
theorem rank_follow (batch : Batch) (schedule : List Nat) (held : batch.tasks[number]? = some task) :
    ∃ later, (batch.follow schedule).tasks[number]? = some later ∧
      min (task.stage.rank + schedule.count number) 4 ≤ later.stage.rank := by
  induction schedule generalizing batch task with
  | nil => exact ⟨task, held, Nat.min_le_left _ _⟩
  | cons next rest ih =>
      by_cases own : next = number
      · subst own
        have inside := (List.getElem?_eq_some_iff.mp held).1
        have turned := batch.site.rank_turn (batch.site.place task.source) task.stage
        obtain ⟨later, found, further⟩ := ih (batch.advance next)
          (by rw [advance_of_task held, List.getElem?_set_self inside])
        refine ⟨later, found, Nat.le_trans ?_ further⟩
        rw [List.count_cons_self]
        dsimp only
        omega
      · have kept : (batch.advance next).tasks[number]? = some task := by
          cases other : batch.tasks[next]? with
          | none => rw [advance_of_none other, held]
          | some former => rw [advance_of_task other, List.getElem?_set_ne own, held]
        rw [List.count_cons_of_ne own]
        exact ih (batch.advance next) kept

/-- Four turns are enough for every task. -/
theorem stopped_of_turns (site : Site) (sources : List Path) {schedule : List Nat}
    (enough : ∀ number < sources.length, 4 ≤ schedule.count number) :
    ((start site sources).follow schedule).Stopped := by
  intro task member
  obtain ⟨number, held⟩ := List.mem_iff_getElem?.mp member
  have inside : number < sources.length := by
    have same := congrArg List.length (sources_start site sources schedule)
    rw [List.length_map] at same
    rw [← same]
    exact (List.getElem?_eq_some_iff.mp held).1
  have begun : (start site sources).tasks[number]? = some ⟨sources[number], .waiting⟩ := by
    simp [start, List.getElem?_eq_getElem inside]
  obtain ⟨later, found, further⟩ := rank_follow (start site sources) schedule begun
  obtain rfl := Option.some.inj (found.symm.trans held)
  have turns := enough number inside
  cases stage : later.stage with
  | done outcome => exact ⟨outcome, rfl⟩
  | _ =>
      rw [stage] at further
      simp only [Stage.rank] at further
      omega

end Batch

end Stencil.Project
