import Stencil.Project.Batch
import Stencil.Proofs.Disk.Sparing
import Stencil.Proofs.Project.Pages
import Stencil.Proofs.Project.Placement

/-!
# Turns of a build

A build that takes all its turns at once is the build of a page to its file.  A turn depends on
little of the site, and it changes little: the directories above the output, the output, and what is
remembered of the page.  So it does the same on every site that looks the same to the page.
-/

namespace Stencil

/-- The directories above a place are those above its path. -/
theorem Disk.makeAbove_eq (disk : Disk) (place : Place) :
    disk.makeAbove place = disk.makeParents place.toPath := by
  unfold makeAbove makeParents
  cases place.toPath.parent? <;> rfl

namespace Project

open Render

variable {layout : Layout} {site other first : Site} {page : Place} {above : List Name}
  {last : Component}

/-- The output is written in the directories that were made above it. -/
theorem Layout.writeOutput_eq (layout : Layout) (disk : Disk) (page : Place) (content : String) :
    layout.writeOutput disk page content =
      match disk.makeParents (layout.destination page) with
      | (.error fault, disk) => (.error fault, disk)
      | (.ok _, disk) =>
          match disk.write (layout.destination page) content.toUTF8 with
          | .error fault => (.error fault, disk)
          | .ok disk => (.ok (layout.destination page), disk) := by
  unfold writeOutput Disk.makeParents
  dsimp only
  generalize layout.destination page = output
  cases output.parent? with
  | none => rfl
  | some parent =>
      dsimp only
      rcases disk.makeDirectories parent with ⟨fault | _, middle⟩ <;> rfl

namespace Layout.PutsAt

variable {disk : Disk} (puts : layout.PutsAt page above last)

include puts

theorem makeParents (plain : disk.Plain) :
    ∃ after, disk.makeParents (layout.destination page) = ((disk.pavement above).1, after) ∧
      Disk.Paved (disk.pavement above).2 disk after := by
  obtain ⟨outcome, paved⟩ := Disk.makeDirectories_fromRoot plain above
  refine ⟨_, ?_, paved⟩
  rw [puts.destination, Disk.makeParents, puts.parent?, ← outcome]

/-- In a directory that was made for it, the output is refused for reasons of its name, or because a
directory has its place. -/
theorem target (plain : disk.Plain) (paved : (disk.pavement above).1 = .ok ())
    (directory : disk.get? above = some .directory) :
    disk.target (layout.destination page) =
      match last with
      | .name html =>
          match (layout.destination page).fault?.or (Disk.lengthFault? html) with
          | some fault => .error fault
          | none =>
              if disk.get? (above ++ [html]) = some .directory then .error .isADirectory
              else .ok (above ++ [html])
      | _ => .error ((layout.destination page).fault?.getD .isADirectory) := by
  rw [puts.destination]
  have steps := puts.steps
  have inner := puts.inner
  cases last with
  | root => cases inner
  | current => cases inner
  | parent =>
      dsimp only
      rw [Disk.target_of_parent plain steps, Disk.refusal_of_pavement plain paved directory]
  | name html =>
      have along : Disk.along above ++ [.along (.name html)] = Disk.along (above ++ [html]) := by
        simp [Disk.along]
      rw [along] at steps
      dsimp only
      refine (Disk.target_concat plain paved directory steps).trans ?_
      cases (layout.outputPath page).fault?.or (Disk.lengthFault? html) <;> rfl

end Layout.PutsAt

namespace Site

/-- Take a number of turns in the build of a page. -/
def turns (site : Site) (source : Place) (stage : Stage) : (count : Nat) → Stage × Site
  | 0 => (stage, site)
  | count + 1 =>
      let (stage, site) := turns site source stage count
      site.turn source stage

/-- The build of a page that takes a number of turns with no other build beside it. -/
def alone (site : Site) (source : Place) (count : Nat) : Stage × Site :=
  site.turns source .waiting count

theorem alone_succ (site : Site) (source : Place) (count : Nat) :
    site.alone source (count + 1) =
      (site.alone source count).2.turn source (site.alone source count).1 := rfl

theorem alone_add_of_done {source : Place} {count : Nat} {outcome : Except Error Path}
    (done : (site.alone source count).1 = .done outcome) (more : Nat) :
    site.alone source (count + more) = site.alone source count := by
  induction more with
  | zero => rfl
  | succ more ih =>
      rw [← Nat.add_assoc, alone_succ, ih, done, turn]
      exact Prod.ext done.symm rfl

/-- Four turns build a page to its file. -/
theorem alone_four (site : Site) (source : Place) :
    site.alone source 4 = (.done (site.buildToFile source).1, (site.buildToFile source).2) := by
  have first : site.alone source 1 =
      (.ofOutcome ((site.project.render site.disk source).map .rendered), site) := rfl
  unfold buildToFile finish
  cases ran : site.project.render site.disk source with
  | error error =>
      rw [ran] at first
      exact (alone_add_of_done (congrArg Prod.fst first) 3).trans first
  | ok page =>
      rw [ran] at first
      have second : site.alone source 2 = site.turn source (.rendered page) := by
        rw [alone_succ, first]
        rfl
      rw [turn] at second
      dsimp only at second ⊢
      rw [Layout.writeOutput_eq]
      generalize site.disk.makeParents (site.project.layout.destination source) = made at second ⊢
      rcases made with ⟨fault | _, disk⟩
      · have failed : site.alone source 2 = (.done (.error (.disk fault)), { site with disk }) :=
          second
        rw [alone_add_of_done (congrArg Prod.fst failed) 2, failed]
      · have third : site.alone source 3 =
            Site.turn { site with disk } source (.prepared page) := by
          rw [alone_succ, second]
          rfl
        rw [turn] at third
        dsimp only at third ⊢
        generalize disk.write (site.project.layout.destination source) page.content.toUTF8 = written
          at third ⊢
        cases written with
        | error fault =>
            have failed : site.alone source 3 =
                (.done (.error (.disk fault)), { site with disk }) := third
            rw [alone_add_of_done (congrArg Prod.fst failed) 1, failed]
        | ok disk =>
            rw [alone_succ, third]
            rfl

/-- A build that is done has done what four turns do. -/
theorem alone_of_done {source : Place} {count : Nat} {outcome : Except Error Path}
    (done : (site.alone source count).1 = .done outcome) :
    site.alone source count = site.alone source 4 := by
  rcases Nat.le_total count 4 with early | late
  · have same := alone_add_of_done done (4 - count)
    rw [Nat.add_sub_cancel' early] at same
    exact same.symm
  · have finished : (site.alone source 4).1 = .done (site.buildToFile source).1 := by
      rw [alone_four]
    have same := alone_add_of_done finished (count - 4)
    rwa [Nat.add_sub_cancel' late] at same

@[simp]
theorem layout_turn (site : Site) (source : Place) (stage : Stage) :
    (site.turn source stage).2.project.layout = site.project.layout := by
  cases stage <;> simp [turn]

@[simp]
theorem templates_turn (site : Site) (source : Place) (stage : Stage) :
    (site.turn source stage).2.project.templates = site.project.templates := by
  cases stage <;> simp [turn]

/-- A site looks to a page like another one does. -/
structure Resembles (site : Site) (page : Place) (above : List Name) (last : Component)
    (other : Site) : Prop where
  layout : site.project.layout = other.project.layout
  render : site.project.render site.disk page = other.project.render other.disk page
  files : ∀ location, location <+: above → site.disk.file? location = other.disk.file? location
  directories : ∀ location, location <+: above → other.disk.get? location = some .directory →
    site.disk.get? location = some .directory
  output : ∀ html, last = .name html →
    site.disk.get? (above ++ [html]) = other.disk.get? (above ++ [html])
  page : site.project.pages[page]? = other.project.pages[page]?

theorem Resembles.refl (page : Place) (above : List Name) (last : Component) (site : Site) :
    site.Resembles page above last site :=
  ⟨rfl, rfl, fun _ _ => rfl, fun _ _ => id, fun _ _ => rfl, rfl⟩

/-- The directory of the output is there as soon as the build has prepared it. -/
def Holds (above : List Name) (site : Site) (stage : Stage) : Prop :=
  ∀ rendered, stage = .prepared rendered →
    (site.disk.pavement above).1 = .ok () ∧ site.disk.get? above = some .directory

theorem holds_turn (puts : layout.PutsAt page above last) (same : site.project.layout = layout)
    (plain : site.disk.Plain) (stage : Stage) :
    (site.turn page stage).2.Holds above (site.turn page stage).1 := by
  subst same
  cases stage with
  | waiting =>
      rw [turn]
      cases site.project.render site.disk page <;> nofun
  | rendered rendered =>
      obtain ⟨after, made, paved⟩ := puts.makeParents plain
      rw [turn, made]
      cases reached : (site.disk.pavement above).1 with
      | error fault => nofun
      | ok _ =>
          rw [(Disk.pavement_ok reached).1] at paved
          exact fun _ _ => ⟨paved.pavement reached, paved.directory⟩
  | prepared rendered =>
      rw [turn]
      cases site.disk.write (site.project.layout.destination page) rendered.content.toUTF8 <;> nofun
  | written rendered => nofun
  | done outcome => nofun

/-- A turn changes a location of two disks to the same: to a directory on the way to the output, or
to the output. -/
def ChangesAlike (above : List Name) (last : Component) (other disk otherAfter after : Disk) :
    Prop :=
  ∀ location,
    after.get? location = disk.get? location ∧ otherAfter.get? location = other.get? location ∨
      location <+: above ∧ other.file? location = none ∧
        after.get? location = some .directory ∧ otherAfter.get? location = some .directory ∨
      ∃ html content, last = .name html ∧ location = above ++ [html] ∧
        after.get? location = some (.file content) ∧
          otherAfter.get? location = some (.file content)

theorem changesAlike_self (above : List Name) (last : Component) (other disk : Disk) :
    ChangesAlike above last other disk other disk :=
  fun _ => .inl ⟨rfl, rfl⟩

/-- Two sites that look the same to a page take the same turn of its build. -/
structure TurnAlike (page : Place) (above : List Name) (last : Component) (other site : Site)
    (stage : Stage) : Prop where
  next : (site.turn page stage).1 = (other.turn page stage).1
  disk : ChangesAlike above last other.disk site.disk (other.turn page stage).2.disk
    (site.turn page stage).2.disk
  here : (site.turn page stage).2.disk.here = site.disk.here
  pages : ∀ place,
    (site.turn page stage).2.project.pages[place]? = site.project.pages[place]? ∧
        (other.turn page stage).2.project.pages[place]? = other.project.pages[place]? ∨
      place = page ∧ (site.turn page stage).2.project.pages[place]? =
        (other.turn page stage).2.project.pages[place]?

section Writing

variable (samePath : site.project.layout = layout) (same : other.project.layout = layout)
  (rendered : Rendered)

include samePath same

/-- An output that is refused on both sites is written on neither. -/
theorem turnAlike_refused {fault : Disk.Fault}
    (failed : site.disk.target (layout.destination page) = .error fault)
    (otherFailed : other.disk.target (layout.destination page) = .error fault) :
    TurnAlike page above last other site (.prepared rendered) := by
  subst same
  have turned : site.turn page (.prepared rendered) = (.done (.error (.disk fault)), site) := by
    rw [turn, samePath, Disk.write, failed]
    rfl
  have otherTurned : other.turn page (.prepared rendered) =
      (.done (.error (.disk fault)), other) := by
    rw [turn, Disk.write, otherFailed]
    rfl
  constructor
  · rw [turned, otherTurned]
  · rw [turned, otherTurned]
    exact changesAlike_self _ _ _ _
  · rw [turned]
  · rw [turned, otherTurned]
    exact fun place => .inl ⟨rfl, rfl⟩

/-- An output that is admitted on both sites is written on both. -/
theorem turnAlike_admitted {html : Name} (admits : site.disk.Admits (above ++ [html]))
    (otherAdmits : other.disk.Admits (above ++ [html]))
    (target : site.disk.target (layout.destination page) = .ok (above ++ [html]))
    (otherTarget : other.disk.target (layout.destination page) = .ok (above ++ [html])) :
    TurnAlike page above (.name html) other site (.prepared rendered) := by
  subst same
  have turned : site.turn page (.prepared rendered) = (.written rendered,
      { site with disk := site.disk.put (above ++ [html]) (.file rendered.content.toUTF8) }) := by
    rw [turn, samePath, Disk.write, target]
    rfl
  have otherTurned : other.turn page (.prepared rendered) = (.written rendered,
      { other with disk := other.disk.put (above ++ [html]) (.file rendered.content.toUTF8) }) := by
    rw [turn, Disk.write, otherTarget]
    rfl
  constructor
  · rw [turned, otherTurned]
  · rw [turned, otherTurned]
    intro location
    dsimp only
    rw [Disk.get?_put, Disk.get?_put]
    by_cases own : above ++ [html] = location
    · right; right
      rw [if_pos ⟨admits, own⟩, if_pos ⟨otherAdmits, own⟩]
      exact ⟨html, _, rfl, own.symm, rfl, rfl⟩
    · left
      rw [if_neg fun put => own put.2, if_neg fun put => own put.2]
      exact ⟨rfl, rfl⟩
  · rw [turned]
    exact Disk.here_put _ _ _
  · rw [turned, otherTurned]
    exact fun place => .inl ⟨rfl, rfl⟩

end Writing

section Alike

variable (puts : layout.PutsAt page above last) (same : other.project.layout = layout)
  (resembles : site.Resembles page above last other) (plain : site.disk.Plain)
  (also : other.disk.Plain)

include puts same resembles plain also

theorem turnAlike_rendered (rendered : Rendered) :
    TurnAlike page above last other site (.rendered rendered) := by
  have samePath : site.project.layout = layout := resembles.layout.trans same
  have pavement : site.disk.pavement above = other.disk.pavement above :=
    Disk.pavement_congr above resembles.files
  obtain ⟨after, made, paved⟩ := puts.makeParents plain
  obtain ⟨otherAfter, otherMade, otherPaved⟩ := puts.makeParents also
  rw [pavement] at made paved
  subst same
  constructor
  · rw [turn, turn, samePath, made, otherMade]
  · rw [turn, turn, samePath, made, otherMade]
    intro location
    dsimp only
    rw [paved.get?, otherPaved.get?]
    by_cases within : location <+: (other.disk.pavement above).2
    · right; left
      rw [if_pos within, if_pos within]
      exact ⟨within.trans (Disk.pavement_within above), Disk.file?_of_pavement above _ within,
        rfl, rfl⟩
    · left
      rw [if_neg within, if_neg within]
      exact ⟨rfl, rfl⟩
  · rw [turn, samePath, made]
    exact paved.here
  · rw [turn, turn]
    exact fun place => .inl ⟨rfl, rfl⟩

theorem turnAlike_prepared (rendered : Rendered) (holds : other.Holds above (.prepared rendered)) :
    TurnAlike page above last other site (.prepared rendered) := by
  have samePath : site.project.layout = layout := resembles.layout.trans same
  have pavement : site.disk.pavement above = other.disk.pavement above :=
    Disk.pavement_congr above resembles.files
  obtain ⟨reached, there⟩ := holds rendered rfl
  have directory := resembles.directories above (List.prefix_refl _) there
  have target := puts.target plain (by rw [pavement, reached]) directory
  have otherTarget := puts.target also reached there
  have inner := puts.inner
  cases last with
  | root => cases inner
  | current => cases inner
  | parent =>
      dsimp only at target otherTarget
      exact turnAlike_refused samePath same rendered target otherTarget
  | name html =>
      have output := resembles.output html rfl
      dsimp only at target otherTarget
      generalize (layout.destination page).fault?.or (Disk.lengthFault? html) = refusal
        at target otherTarget
      cases refusal with
      | some fault => exact turnAlike_refused samePath same rendered target otherTarget
      | none =>
          dsimp only at target otherTarget
          rw [output] at target
          by_cases occupied : other.disk.get? (above ++ [html]) = some .directory
          · rw [if_pos occupied] at target otherTarget
            exact turnAlike_refused samePath same rendered target otherTarget
          · rw [if_neg occupied] at target otherTarget
            have admits : site.disk.Admits (above ++ [html]) :=
              ⟨by simp, by simpa using directory, by rwa [output]⟩
            have otherAdmits : other.disk.Admits (above ++ [html]) :=
              ⟨by simp, by simpa using there, occupied⟩
            exact turnAlike_admitted samePath same rendered admits otherAdmits target otherTarget

/-- A turn is the same on every site that looks the same to the page. -/
theorem turnAlike (stage : Stage) (holds : other.Holds above stage) :
    TurnAlike page above last other site stage := by
  have samePath : site.project.layout = other.project.layout := resembles.layout
  cases stage with
  | waiting =>
      constructor
      · rw [turn, turn, resembles.render]
      · exact changesAlike_self _ _ _ _
      · rfl
      · exact fun place => .inl ⟨rfl, rfl⟩
  | rendered rendered => exact turnAlike_rendered puts same resembles plain also rendered
  | prepared rendered => exact turnAlike_prepared puts same resembles plain also rendered holds
  | written rendered =>
      constructor
      · rw [turn, turn, samePath]
      · exact changesAlike_self _ _ _ _
      · rfl
      · intro place
        rw [turn, turn]
        dsimp only
        rw [getElem?_record, getElem?_record]
        by_cases own : page = place
        · right
          rw [if_pos own, if_pos own, resembles.page]
          exact ⟨own.symm, rfl⟩
        · left
          rw [if_neg own, if_neg own]
          exact ⟨rfl, rfl⟩
  | done outcome =>
      constructor
      · rfl
      · exact changesAlike_self _ _ _ _
      · rfl
      · exact fun place => .inl ⟨rfl, rfl⟩

end Alike

/-- A site differs from the first one by no more than what the build of a page may change. -/
structure Confined (site : Site) (page : Place) (above : List Name) (last : Component)
    (first : Site) : Prop where
  layout : site.project.layout = first.project.layout
  templates : site.project.templates = first.project.templates
  here : site.disk.here = first.disk.here
  disk : ∀ location, site.disk.get? location = first.disk.get? location ∨
    location <+: above ∧ first.disk.get? location = none ∧
      site.disk.get? location = some .directory ∨
    ∃ html content, last = .name html ∧ location = above ++ [html] ∧
      site.disk.get? location = some (.file content)
  pages : ∀ place, place ≠ page → site.project.pages[place]? = first.project.pages[place]?

theorem Confined.refl (page : Place) (above : List Name) (last : Component) (site : Site) :
    site.Confined page above last site :=
  ⟨rfl, rfl, rfl, fun _ => .inl rfl, fun _ _ => rfl⟩

theorem Confined.plain (confined : site.Confined page above last first)
    (plain : first.disk.Plain) : site.disk.Plain := by
  intro location target
  rcases confined.disk location with same | ⟨-, -, made⟩ | ⟨html, content, -, -, written⟩
  · rw [same]
    exact plain location target
  · rw [made]
    nofun
  · rw [written]
    nofun

/-- A location on the way to the output does not hold the output. -/
theorem not_output_of_within {location : Disk.Location} {html : Name} (within : location <+: above) :
    location ≠ above ++ [html] := by
  rintro rfl
  have shorter := within.length_le
  simp only [List.length_append, List.length_singleton] at shorter
  omega

theorem Confined.turn (puts : layout.PutsAt page above last) (same : first.project.layout = layout)
    (plain : first.disk.Plain) (confined : site.Confined page above last first) {stage : Stage}
    (holds : site.Holds above stage) :
    (site.turn page stage).2.Confined page above last first := by
  have here := confined.plain plain
  have alike := turnAlike puts (confined.layout.trans same) (.refl page above last site) here here
    stage holds
  refine ⟨?_, ?_, alike.here.trans confined.here, fun location => ?_, fun place apart => ?_⟩
  · rw [layout_turn, confined.layout]
  · rw [templates_turn, confined.templates]
  · rcases alike.disk location with ⟨kept, -⟩ | ⟨within, free, made, -⟩ |
      ⟨html, content, isName, own, written, -⟩
    · rw [kept]
      exact confined.disk location
    · rw [made]
      rcases confined.disk location with before | ⟨-, missing, -⟩ | ⟨html, -, -, own, -⟩
      · unfold Disk.file? at free
        cases held : site.disk.get? location with
        | none => exact .inr (.inl ⟨within, by rw [← before, held], rfl⟩)
        | some entry =>
            cases entry with
            | directory => exact .inl (by rw [← before, held])
            | file content => simp [held] at free
            | link target => exact absurd held (here _ target)
      · exact .inr (.inl ⟨within, missing, rfl⟩)
      · exact absurd own (not_output_of_within within)
    · exact .inr (.inr ⟨html, content, isName, own, written⟩)
  · rcases alike.pages place with ⟨kept, -⟩ | ⟨own, -⟩
    · rw [kept, confined.pages place apart]
    · exact absurd own apart

/-- The build of a page on its own changes no more than it may. -/
theorem confined_alone (puts : layout.PutsAt page above last)
    (same : first.project.layout = layout) (plain : first.disk.Plain) (count : Nat) :
    (first.alone page count).2.Confined page above last first ∧
      (first.alone page count).2.Holds above (first.alone page count).1 := by
  induction count with
  | zero => exact ⟨.refl page above last first, nofun⟩
  | succ count ih =>
      obtain ⟨confined, holds⟩ := ih
      rw [alone_succ]
      exact ⟨confined.turn puts same plain holds,
        holds_turn puts (confined.layout.trans same) (confined.plain plain) _⟩

end Site

end Project

end Stencil
