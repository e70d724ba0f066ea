import Stencil.Proofs.Project.Settling

/-!
# Frozen templates

A site is frozen when its templates stay as they are, whatever becomes of the files that they come
from.  Only the pages themselves are read from the disk of a frozen site, so that builds meet less
there.  As long as no build looks for a template where another one has its output, a batch takes the
same turns on a site as it takes when the site is frozen.
-/

namespace Stencil.Project

open Render

/-- The site with other templates. -/
def Site.withTemplates (site : Site) (templates : Templates) : Site :=
  { site with project := { site.project with templates } }

/-- The site with its templates as they are now, whatever becomes of the disk. -/
def Site.frozen (site : Site) : Site :=
  site.withTemplates (.library (site.project.library site.disk))

/-- The batch on the site with other templates. -/
def Batch.withTemplates (batch : Batch) (templates : Templates) : Batch :=
  { batch with site := batch.site.withTemplates templates }

/-- No build looks for a template where another one has its output. -/
def Site.Unread (site : Site) (sources : List Path) : Prop :=
  ∀ source ∈ sources, ∀ other ∈ sources, other ≠ source →
    ∀ place ∈ site.candidates source, place.components ≠ site.output other

variable {site first : Site} {sources : List Path} {turns : Nat → Nat} {batch : Batch}

theorem Site.place_frozen (site : Site) (source : Path) :
    site.frozen.place source = site.place source := rfl

theorem Site.disk_frozen (site : Site) : site.frozen.disk = site.disk := rfl

/-- Before anything has changed, a frozen site renders its pages like the site. -/
theorem Site.render_frozen (site : Site) (page : Place) :
    site.frozen.project.render site.disk page = site.project.render site.disk page := rfl

theorem record_withTemplates (project : Project) (templates : Templates) (page : Place)
    (dependencies : Std.ExtTreeSet Place) :
    Project.record { project with templates } page dependencies =
      { project.record page dependencies with templates } := by
  unfold record
  dsimp only
  cases project.pages[page]? <;> rfl

theorem Stage.ofOutcome_map_ne_waiting {α : Type} (outcome : Except Error α) {next : α → Stage}
    (awake : ∀ a, next a ≠ .waiting) : ofOutcome (outcome.map next) ≠ .waiting := by
  cases outcome with
  | error error => exact Stage.noConfusion
  | ok a => exact awake a

namespace Site

/-- A turn is the same with other templates, unless it renders the page differently. -/
theorem turn_withTemplates (templates : Templates) (page : Place) (stage : Stage)
    (alike : stage = .waiting → (site.withTemplates templates).project.render site.disk page =
      site.project.render site.disk page) :
    (site.withTemplates templates).turn page stage =
      ((site.turn page stage).1, (site.turn page stage).2.withTemplates templates) := by
  cases stage with
  | waiting =>
      have same := alike rfl
      rw [turn, turn, ← same]
      rfl
  | written rendered =>
      rw [turn, turn]
      dsimp only [withTemplates]
      rw [record_withTemplates]
  | done outcome => rfl
  | _ =>
      rw [turn, turn]
      dsimp only [withTemplates]

/-- No turn leads back to the beginning. -/
theorem turn_ne_waiting (site : Site) (page : Place) (stage : Stage) :
    (site.turn page stage).1 ≠ .waiting := by
  cases stage with
  | written rendered => exact Stage.noConfusion
  | done outcome => exact Stage.noConfusion
  | _ =>
      rw [turn]
      dsimp only
      exact Stage.ofOutcome_map_ne_waiting _ fun _ => Stage.noConfusion

/-- A task that waits has not had a turn. -/
theorem eq_zero_of_waiting {page : Place} {count : Nat}
    (waiting : (site.alone page count).1 = .waiting) : count = 0 := by
  cases count with
  | zero => rfl
  | succ count => exact absurd waiting (turn_ne_waiting _ _ _)

end Site

namespace Batch

/-- A turn of a batch is the same with other templates, unless it renders a page differently. -/
theorem advance_withTemplates (templates : Templates) (number : Nat)
    (alike : ∀ source, batch.tasks[number]? = some ⟨source, .waiting⟩ →
      (batch.site.withTemplates templates).project.render batch.site.disk
          (batch.site.place source) =
        batch.site.project.render batch.site.disk (batch.site.place source)) :
    (batch.withTemplates templates).advance number =
      (batch.advance number).withTemplates templates := by
  unfold advance
  have tasks : (batch.withTemplates templates).tasks = batch.tasks := rfl
  rw [tasks]
  cases held : batch.tasks[number]? with
  | none => rfl
  | some task =>
      have turned := Site.turn_withTemplates templates (batch.site.place task.source) task.stage
        fun waiting => alike task.source (by rw [held, ← waiting])
      have place : (batch.withTemplates templates).site.project.layout.resolve task.source =
          batch.site.place task.source := rfl
      dsimp only
      rw [place]
      unfold withTemplates
      dsimp only
      rw [turned]
      rfl

section Frozen

variable (mirrors : batch.Mirrors first.frozen sources turns)
  (separates : first.frozen.Separates sources) (unread : first.Unread sources) {source : Path}
  {number : Nat} (asked : sources[number]? = some source) (waiting : turns number = 0)

include mirrors separates unread asked waiting

/-- Where a page that waits looks for templates, no more than directories is made. -/
theorem Mirrors.get?_candidate {place : Place} (absolute : place.Absolute)
    (looked : place ∈ first.candidates source) :
    batch.site.disk.get? place.names = first.disk.get? place.names ∨
      first.disk.get? place.names = none ∧
        batch.site.disk.get? place.names = some .directory := by
  refine (mirrors.disk place.names).cases
    (fun held => first.disk.get? place.names = none ∧ held = some .directory) fun second => ?_
  -- the task itself has changed nothing yet, and of the others only an output would be a file
  by_cases own : second = number
  · subst own
    left
    rw [Site.solo, asked]
    dsimp only
    rw [waiting]
    rfl
  · rcases separates.solo_cases turns second with
      same | ⟨other, above, last, also, puts, confined⟩
    · left
      rw [same]
    · rcases confined.disk place.names with same | ⟨-, missing, made⟩ | ⟨html, -, isName, names, -⟩
      · exact .inl same
      · exact .inr ⟨missing, made⟩
      · have differ : other ≠ source := by
          rintro rfl
          exact separates.output_ne also asked own rfl
        have output := Site.output_eq puts isName
        rw [← names] at output
        exact absurd (absolute.components.trans output.symm) (unread source (List.mem_of_getElem? asked) other
          (List.mem_of_getElem? also) differ place looked)

/-- A page that waits is rendered with the templates of the site as with those that were frozen. -/
theorem Mirrors.render_waiting (fits : first.frozen.Fits sources) :
    (batch.site.withTemplates first.project.templates).project.render batch.site.disk
        (first.place source) =
      batch.site.project.render batch.site.disk (first.place source) := by
  have member := List.mem_of_getElem? asked
  have plain := mirrors.plain separates
  have spares := mirrors.spares separates
  have layout : batch.site.project.layout = first.project.layout := mirrors.layout
  have sourceAbsolute : (first.place source).Absolute := separates.absolute.root.resolve source
  have apart : Disk.Apart first.project.layout.outDir.names (first.place source).names := by
    obtain ⟨outside, above⟩ := separates.beside source member (first.place source) (.inl rfl)
    rw [sourceAbsolute.within_iff separates.absolute.outDir] at outside
    rw [separates.absolute.outDir.within_iff sourceAbsolute] at above
    exact ⟨outside, above⟩
  have read : batch.site.disk.readText (first.place source).toPath =
      first.disk.readText (first.place source).toPath :=
    spares.readText separates.plain plain sourceAbsolute apart (fits source member)
  have answers : ∀ path,
      (first.project.library first.disk).identify path ∈
          first.project.lookups first.disk (first.place source) →
        (first.project.library batch.site.disk).fetch path =
          (first.project.library first.disk).fetch path := by
    intro path looked
    cases kind : first.project.templates with
    | library library => simp only [Project.library, kind]
    | files =>
        simp only [Project.library, kind] at looked ⊢
        have candidate : first.project.layout.root.resolve path ∈ first.candidates source := by
          rw [Site.candidates, kind]
          exact looked
        have placeAbsolute := separates.absolute.root.resolve path
        apply Template.Library.fetch_below_congr separates.plain plain separates.absolute.root path
        exact Disk.file?_of_made
          (mirrors.get?_candidate separates unread asked waiting placeAbsolute candidate)
  have live := @Project.render_eq_of_same
    (batch.site.withTemplates first.project.templates).project first.project layout rfl
    batch.site.disk (first.place source)
  have frozen := separates.render fits mirrors.layout mirrors.templates plain spares member
  rw [Site.place_frozen, Site.disk_frozen, Site.render_frozen] at frozen
  rw [live, frozen]
  exact Project.render_of_answers read answers

end Frozen

/-- A batch goes on as on the frozen site. -/
theorem Mirrors.follow_withTemplates (mirrors : batch.Mirrors first.frozen sources turns)
    (separates : first.frozen.Separates sources) (fits : first.frozen.Fits sources)
    (unread : first.Unread sources) (schedule : List Nat) :
    (batch.withTemplates first.project.templates).follow schedule =
      (batch.follow schedule).withTemplates first.project.templates := by
  induction schedule generalizing batch turns with
  | nil => rfl
  | cons number rest ih =>
      have step : (batch.withTemplates first.project.templates).advance number =
          (batch.advance number).withTemplates first.project.templates := by
        apply advance_withTemplates
        intro _ held
        have task := mirrors.tasks number
        rw [held] at task
        obtain ⟨source, asked, same⟩ := Option.map_eq_some_iff.mp task.symm
        obtain ⟨rfl, stage⟩ := Task.mk.inj same
        have place : batch.site.place source = first.place source := by
          rw [Site.place, mirrors.layout]
          rfl
        rw [place]
        exact mirrors.render_waiting separates unread asked (Site.eq_zero_of_waiting stage) fits
      have onward := ih (mirrors.advance separates fits number)
      rw [← step] at onward
      exact onward

/-- A batch takes the same turns as on the frozen site. -/
theorem follow_frozen (separates : first.frozen.Separates sources)
    (fits : first.frozen.Fits sources) (unread : first.Unread sources) (schedule : List Nat) :
    (start first sources).follow schedule =
      ((start first.frozen sources).follow schedule).withTemplates first.project.templates :=
  (Mirrors.start first.frozen sources).follow_withTemplates separates fits unread schedule

end Batch

end Stencil.Project
