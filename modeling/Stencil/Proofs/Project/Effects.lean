import Stencil.Proofs.Disk.Effects
import Stencil.Proofs.Project.Settling

/-!
# What a build changes

On a disk without links, a build that succeeds writes its output and makes directories on the way
there.  A build that fails writes nothing and remembers nothing new, and one that fails before it has
an output makes no directories either.
-/

namespace Stencil

/-- The directories above a path are made where components of the path lead. -/
theorem Disk.develops_makeParents {disk : Disk} (plain : disk.Plain) (path : Path) :
    Develops (disk.Above path) (fun _ _ => False) disk (disk.makeParents path).2 := by
  unfold makeParents
  split
  · exact .refl _ _ _
  next parent found => exact develops_makeDirectories plain found

namespace Project

variable {site : Site} {page : Place}

/-- What may come of the build of a page: an outcome, and the site afterwards. -/
inductive Site.Effect (site : Site) (page : Place) : Except Error Path → Site → Prop where
  /-- The page cannot be read or rendered, and nothing changes. -/
  | unrendered {error : Error} : site.project.render site.disk page = .error error →
      Effect site page (.error error) site
  /-- The output cannot be written, and no more than directories above it have been made. -/
  | unwritten {rendered : Render.Rendered} {fault : Disk.Fault} {disk : Disk} :
      site.project.render site.disk page = .ok rendered →
      Disk.Develops (site.disk.Above (site.project.layout.destination page)) (fun _ _ => False)
        site.disk disk →
      Effect site page (.error (.disk fault)) { site with disk }
  /-- The output is written, and with it directories above it have been made. -/
  | written {rendered : Render.Rendered} {disk : Disk} :
      site.project.render site.disk page = .ok rendered →
      Disk.Develops (site.disk.Above (site.project.layout.destination page))
        (fun location content =>
          location = site.disk.locate (.ofPath (site.project.layout.destination page)) ∧
            content = rendered.content.toUTF8)
        site.disk disk →
      disk.read (site.project.layout.destination page) = .ok (.file rendered.content.toUTF8) →
      Effect site page (.ok (site.project.layout.destination page))
        ⟨site.project.record page rendered.dependencies, disk⟩

/-- Writing an output makes directories above it and then the file. -/
theorem Site.effect_finish (plain : site.disk.Plain) {rendered : Render.Rendered}
    (ran : site.project.render site.disk page = .ok rendered) :
    site.Effect page (site.finish page rendered).1 (site.finish page rendered).2 := by
  have develops := Disk.develops_makeParents plain (site.project.layout.destination page)
  unfold finish
  rw [Layout.writeOutput_eq]
  generalize site.disk.makeParents (site.project.layout.destination page) = made at develops ⊢
  rcases made with ⟨fault | _, middle⟩
  · exact .unwritten ran develops
  · dsimp only at develops ⊢
    cases wrote : middle.write (site.project.layout.destination page) rendered.content.toUTF8 with
    | error fault => exact .unwritten ran develops
    | ok disk =>
        have also := develops.plain plain
        refine .written ran ?_ (Disk.read_write also wrote)
        refine (develops.mono (fun _ => id) fun _ _ never => never.elim).trans
          ((Disk.develops_write also wrote).mono (fun _ never => never.elim) ?_)
        rintro location content ⟨leads, same⟩
        rw [Disk.locate_congr develops.here] at leads
        exact ⟨leads, same⟩

/-- A build changes no file but its output and makes no directory but those above, and a build that
fails changes no file and nothing that is remembered. -/
theorem Site.buildToFile_effect (plain : site.disk.Plain) (source : Path) :
    site.Effect (site.place source) (site.buildToFile (site.place source)).1
        (site.buildToFile (site.place source)).2 ∧
      (site.project.layout.root.Absolute → site.project.layout.destination (site.place source) =
        site.project.layout.outputPath (site.place source)) := by
  refine ⟨?_, fun absolute => Layout.destination_eq (absolute.resolve source)⟩
  unfold buildToFile
  cases ran : site.project.render site.disk (site.place source) with
  | error error => exact .unrendered ran
  | ok rendered => exact effect_finish plain ran

section

-- The site is not to be written out where the outcome of a build is taken apart.
attribute [local irreducible] Batch.small

/-- A page is written to a directory that was not there, and the build of another page fails without a
trace. -/
theorem Site.buildToFile_effect_small :
    Batch.small.disk.Plain ∧
      (∃ disk, (Batch.small.buildToFile (Batch.small.place ⟨"d//../i.p"⟩)).2.disk = disk ∧
        disk.read ⟨"/b/o/i.html"⟩ = .ok (.file "1".toUTF8) ∧
        Disk.Develops (Batch.small.disk.Above ⟨"/b/o/i.html"⟩)
          (fun location content => location = (Place.ofPath ⟨"/b/o/i.html"⟩).names ∧
            content = "1".toUTF8) Batch.small.disk disk) ∧
      (Batch.small.buildToFile (Batch.small.place ⟨"j.p"⟩)).2 = Batch.small := by
  have plain : Batch.small.disk.Plain := by decide +kernel
  have output : Batch.small.project.layout.destination (Batch.small.place ⟨"d//../i.p"⟩) =
      ⟨"/b/o/i.html"⟩ := by
    decide +kernel
  refine ⟨plain, ⟨_, rfl, ?_⟩, ?_⟩
  · have content : ((Batch.small.project.render Batch.small.disk
        (Batch.small.place ⟨"d//../i.p"⟩)).toOption.map (·.content)) = some "1" := by
      decide +kernel
    have built : (Batch.small.buildToFile (Batch.small.place ⟨"d//../i.p"⟩)).1.toOption =
        some ⟨"/b/o/i.html"⟩ := by
      decide +kernel
    obtain ⟨effect, -⟩ := buildToFile_effect plain ⟨"d//../i.p"⟩
    generalize Batch.small.buildToFile (Batch.small.place ⟨"d//../i.p"⟩) = result at built effect ⊢
    rcases result with ⟨outcome, after⟩
    dsimp only at built effect ⊢
    cases effect with
    | unrendered => cases built
    | unwritten => cases built
    | @written rendered disk ran develops read =>
        rw [ran] at content
        have text : rendered.content = "1" := Option.some.inj content
        rw [output, text] at develops read
        exact ⟨read, develops⟩
  · have lost : (Batch.small.project.render Batch.small.disk
        (Batch.small.place ⟨"j.p"⟩)).toOption.isNone = true := by
      decide +kernel
    obtain ⟨effect, -⟩ := buildToFile_effect plain ⟨"j.p"⟩
    generalize Batch.small.buildToFile (Batch.small.place ⟨"j.p"⟩) = result at effect ⊢
    rcases result with ⟨outcome, after⟩
    dsimp only at effect ⊢
    cases effect with
    | unrendered => rfl
    | unwritten ran =>
        rw [ran] at lost
        cases lost
    | written ran =>
        rw [ran] at lost
        cases lost

end

end Project

end Stencil
