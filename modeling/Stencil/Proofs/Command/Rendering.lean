import Stencil.Proofs.Command.Opening
import Stencil.Proofs.Disk.Canonical
import Stencil.Proofs.Project.Landing

/-!
# Showing a page and building it

A page can be shown, or it can be the only one that is built.  The two commands come to the page on
different ways and end with exit codes of their own, but they render the same.
-/

namespace Stencil

namespace Project

open Render

variable {layout : Layout} {site : Site} {page : Place} {path : Path}

/-- Whether an output can be written does not depend on its content. -/
theorem Layout.writeOutput_congr (layout : Layout) (disk : Disk) (page : Place)
    (content other : String) :
    (layout.writeOutput disk page content).1 = (layout.writeOutput disk page other).1 := by
  rw [writeOutput_eq, writeOutput_eq]
  generalize layout.destination page = output
  rcases disk.makeParents output with ⟨fault | _, middle⟩
  · rfl
  · dsimp only
    unfold Disk.write
    cases middle.target output <;> rfl

/-- The output of a build that succeeds is what was rendered. -/
theorem Site.read_of_buildToFile (absolute : site.project.layout.Absolute)
    (pageAbsolute : page.Absolute) (plain : site.disk.Plain)
    (built : (site.buildToFile page).1 = .ok path) :
    path = site.project.layout.outputPath page ∧ ∃ rendered,
      site.project.render site.disk page = .ok rendered ∧
        (site.buildToFile page).2.disk.read path = .ok (.file rendered.content.toUTF8) := by
  obtain ⟨own, rendered, middle, ran, made, wrote⟩ := written_of_buildToFile built
  rw [Layout.destination_eq pageAbsolute] at own made wrote
  obtain ⟨above, html?, lands⟩ := Layout.exists_lands absolute pageAbsolute
  obtain ⟨after, prepared, paved⟩ := lands.makeParents plain
  rw [prepared] at made
  obtain ⟨-, rfl⟩ := Prod.mk.inj made
  have middlePlain := paved.plain plain
  obtain ⟨html, -, -, output, develops, held⟩ := lands.of_write middlePlain wrote
  rw [output] at wrote
  obtain ⟨-, -, reachable, -⟩ := Disk.of_write middlePlain (Place.absolute_root _) wrote
  refine ⟨own, rendered, ran, ?_⟩
  rw [own, output]
  exact (Disk.read_toPath (develops.plain middlePlain) (Place.absolute_root _) _).mpr
    ⟨reachable, held⟩

/-- A page that is rendered is built, when its output can be written. -/
theorem Site.buildToFile_of_render {rendered : Rendered} {content : String}
    (ran : site.project.render site.disk page = .ok rendered)
    (writable : (site.project.layout.writeOutput site.disk page content).1 = .ok path) :
    ∃ output, (site.buildToFile page).1 = .ok output ∧
      (site.buildToFile page).2.project = site.project.record page rendered.dependencies := by
  rw [Layout.writeOutput_congr _ _ _ _ rendered.content] at writable
  unfold buildToFile finish
  rw [ran]
  dsimp only
  generalize site.project.layout.writeOutput site.disk page rendered.content = written at writable ⊢
  rcases written with ⟨fault | output, after⟩
  · cases writable
  · exact ⟨output, rfl, rfl⟩

/-- To build all pages is to build the only one. -/
theorem Site.buildAll_singleton (known : site.project.pages.keys = [page])
    (pageAbsolute : page.Absolute) :
    site.buildAll = (Report.ofOutcomes? [(page.toPath, (site.buildToFile page).1)],
      (site.buildToFile page).2) := by
  rw [buildAll, known, List.map_singleton, buildMany, buildEach_eq, place, Layout.resolve,
    Place.resolve_toPath _ pageAbsolute]
  simp only [buildEach]

theorem Report.isOk_singleton (source : Path) (outcome : Except Error Path) :
    (ofOutcomes [(source, outcome)]).isOk = outcome.isOk := by
  cases outcome <;> simp [ofOutcomes, isOk, Except.isOk, Except.toBool]

theorem Report.ofOutcomes?_singleton (source : Path) {outcome : Except Error Path}
    (ends : Error.ends outcome = true) :
    ofOutcomes? [(source, outcome)] = some (ofOutcomes [(source, outcome)]) := by
  simp [ofOutcomes?, ends]

end Project

namespace Command

open Project

variable {room : Nat} {disk : Disk} {project : Project} {root file : Path} {page : Place}

theorem Blank.register (blank : Blank project) (page : Place) :
    project.register page =
      { project with pages := (∅ : Std.ExtTreeMap Place Page).insert page { source := page } } := by
  have new : ¬project.knows page = true := by simp [knows, blank.pages]
  rw [Project.register, if_neg new, blank.pages]

theorem Blank.keys_register (blank : Blank project) (page : Place) :
    (project.register page).pages.keys = [page] := by
  have known : ∀ other, other ∈ (project.register page).pages.keys ↔ other ∈ [page] := by
    intro other
    rw [Std.ExtTreeMap.mem_keys, List.mem_singleton]
    refine knows_register.trans ?_
    simp [knows, blank.pages, eq_comm]
  exact List.perm_singleton.mp <| (List.perm_ext_iff_of_nodup (nodup_keys _) (by simp)).mpr known

/-- Without links, a path that leads to a file is followed to the place of the file. -/
theorem exists_place (plain : disk.Plain) (regular : disk.isFile (canonical disk file) = true) :
    ∃ location, canonical disk file = (Place.mk .root location).toPath := by
  unfold canonical Disk.canonical at regular ⊢
  cases found : disk.near.find (absolute disk file) with
  | ok location => exact ⟨location, rfl⟩
  | error fault =>
      rw [found] at regular
      obtain ⟨content, read⟩ := Disk.isFile_iff.mp regular
      cases whole : disk.find (absolute disk file) with
      | ok location =>
          rw [Disk.near_find plain (isAbsolute_absolute disk file) whole] at found
          cases found
      | error fault =>
          rw [Disk.read, whole] at read
          cases read

/-- A file that is named is the only page that a build starts with. -/
theorem start_file (plain : disk.Plain) (opened : openProject room disk root none = .ok project)
    (regular : disk.isFile (canonical disk file) = true) :
    start room disk root none [file] =
      .ok (project.register (project.layout.resolve (canonical disk file))) := by
  obtain ⟨location, same⟩ := exists_place plain regular
  obtain ⟨content, read⟩ := Disk.isFile_iff.mp regular
  have place : project.layout.resolve (canonical disk file) = ⟨.root, location⟩ := by
    rw [same]
    exact Place.resolve_toPath _ (Place.absolute_root _)
  have again : project.layout.resolve (Place.mk .root location).toPath = ⟨.root, location⟩ :=
    Place.resolve_toPath _ (Place.absolute_root _)
  have loaded : project.loadPath disk (canonical disk file) =
      .ok (project.registerAll [⟨.root, location⟩]) := by
    unfold loadPath
    dsimp only
    rw [place, ← same, read]
    dsimp only
    rw [same, again]
  rw [start_of_openProject opened, loadPages.eq_def, List.map_singleton, loadPaths_cons, loaded,
    place]
  rfl

/-- The page is rendered as if it were not known. -/
theorem Blank.render_register (blank : Blank project) (page other : Place) :
    (project.register page).render disk other = project.render disk other := by
  rw [blank.register]
  rfl

theorem Blank.dependencies? (blank : Blank project) (page : Place) :
    project.dependencies? page = none := by
  simp [Project.dependencies?, blank.pages]

theorem Blank.layout_register (blank : Blank project) (page : Place) :
    (project.register page).layout = project.layout := by
  rw [blank.register]

/-- What is shown is the page as the project renders it. -/
theorem render_eq (opened : openProject room disk (canonical disk root) none = .ok project) :
    render room disk (some root) file =
      let page := project.layout.resolve (canonical disk file)
      match project.render disk page with
      | .error error => failed disk error
      | .ok rendered =>
          { exitCode := some 0, output := rendered.content, disk,
            project := some (project.record page rendered.dependencies) } := by
  have rooted : rootOf disk (some root) [] = canonical disk root := rfl
  unfold render
  rw [rooted, opened]
  dsimp only
  rw [Site.build]
  cases project.render disk (project.layout.resolve (canonical disk file)) <;> rfl

/-- The page that is named is built on its own. -/
theorem build_eq {format : Format} {paths : List Path} {out : Option Path}
    (started : start room disk (rootOf disk (some root) paths) out paths = .ok project)
    (known : project.pages.keys = [page]) (pageAbsolute : page.Absolute) :
    build room disk (some root) paths out format =
      concluded (rootOf disk (some root) paths) format
        (Report.ofOutcomes? [(page.toPath, (Site.buildToFile ⟨project, disk⟩ page).1)])
          (Site.buildToFile ⟨project, disk⟩ page).2 := by
  unfold build
  dsimp only
  rw [started]
  dsimp only
  rw [@Site.buildAll_singleton ⟨project, disk⟩ page known pageAbsolute]

/-- A run that shows a page and a run that builds it agree. -/
structure Agree (disk : Disk) (project : Project) (page : Place) (shown built : Run) : Prop where
  /-- Nothing changes when the page is shown. -/
  still : shown.disk = disk
  ends : ∀ code, shown.exitCode = some code → code = 0 ∨ code = 2
  killed : shown.exitCode = none ↔ built.exitCode = none
  success : shown.exitCode = some 0 ↔ built.exitCode = some 0
  failure : shown.exitCode = some 2 ↔ built.exitCode = some 1
  /-- What is shown is what is in the file of the output. -/
  output : built.exitCode = some 0 →
    built.disk.read (project.layout.outputPath page) = .ok (.file shown.output.toUTF8)
  /-- Both have rendered the same, and the build remembers what it depends on. -/
  rendered : built.exitCode = some 0 → ∃ rendered, project.render disk page = .ok rendered ∧
    shown.output = rendered.content ∧
      built.project.bind (·.dependencies? page) = some rendered.dependencies
  /-- A page is not made known when it is shown, so that nothing is remembered about it. -/
  unknown : shown.project.bind (·.dependencies? page) = none
  unwritten : built.exitCode ≠ some 0 → built.disk = disk

theorem failed_eq_refused (disk : Disk) {error : Error} (ends : error ≠ .tooDeep) :
    failed disk error = refused disk error := by
  unfold failed
  split
  · exact absurd rfl ends
  · rfl

/-- Runs of which none is successful agree, if none of them changes anything. -/
theorem Agree.of_failure {shown built : Run} (still : shown.disk = disk)
    (unwritten : built.disk = disk) (blank : shown.project = none)
    (codes : shown.exitCode = none ∧ built.exitCode = none ∨
      shown.exitCode = some 2 ∧ built.exitCode = some 1) :
    Agree disk project page shown built := by
  have failed : built.exitCode ≠ some 0 := by
    rcases codes with ⟨-, code⟩ | ⟨-, code⟩ <;> rw [code] <;> nofun
  constructor
  · exact still
  · rcases codes with ⟨code, -⟩ | ⟨code, -⟩ <;> simp [code]
  · rcases codes with ⟨code, builtCode⟩ | ⟨code, builtCode⟩ <;> simp [code, builtCode]
  · rcases codes with ⟨code, builtCode⟩ | ⟨code, builtCode⟩ <;> simp [code, builtCode]
  · rcases codes with ⟨code, builtCode⟩ | ⟨code, builtCode⟩ <;> simp [code, builtCode]
  · exact fun done => absurd done failed
  · exact fun done => absurd done failed
  · rw [blank]
    rfl
  · exact fun _ => unwritten

section

variable (site : Site) {format : Format} {error : Error} {rendered : Render.Rendered}
  (layout : site.project.layout = project.layout)
  (same : site.project.render site.disk page = project.render site.disk page)

include same

/-- A page that cannot be rendered is neither shown nor written. -/
theorem agree_of_error (ran : project.render site.disk page = .error error) :
    Agree site.disk project page (failed site.disk error)
      (concluded root format (Report.ofOutcomes? [(page.toPath, (site.buildToFile page).1)])
        (site.buildToFile page).2) := by
  have built : site.buildToFile page = (.error error, site) := by
    rw [Site.buildToFile, same, ran]
  rw [built]
  by_cases deep : error = .tooDeep
  · subst deep
    exact .of_failure rfl rfl rfl (.inl ⟨rfl, rfl⟩)
  · have ends : Error.ends (Except.error error : Except Error Path) = true :=
      Error.ends_iff.mpr fun same => deep (Except.error.inj same)
    have bad : (Report.ofOutcomes [(page.toPath, Except.error error)]).isOk = false :=
      Report.isOk_singleton _ _
    rw [Report.ofOutcomes?_singleton _ ends, failed_eq_refused _ deep]
    refine .of_failure rfl rfl rfl (.inr ⟨rfl, ?_⟩)
    rw [concluded.eq_def]
    dsimp only
    rw [finished.eq_def, bad]
    rfl

include layout

/-- A page that is rendered is shown as it is written. -/
theorem agree_of_render (absolute : project.layout.Absolute) (pageAbsolute : page.Absolute)
    (plain : site.disk.Plain) (blank : Blank project)
    (remembers : (site.project.dependencies? page).isSome) {content : String} {path : Path}
    (writable : (project.layout.writeOutput site.disk page content).1 = .ok path)
    (ran : project.render site.disk page = .ok rendered) :
    Agree site.disk project page
      { exitCode := some 0, output := rendered.content, disk := site.disk,
        project := some (project.record page rendered.dependencies) }
      (concluded root format (Report.ofOutcomes? [(page.toPath, (site.buildToFile page).1)])
        (site.buildToFile page).2) := by
  rw [← layout] at writable absolute
  obtain ⟨output, built, recorded⟩ := Site.buildToFile_of_render (same.trans ran) writable
  obtain ⟨rfl, again, ranAgain, read⟩ :=
    Site.read_of_buildToFile absolute pageAbsolute plain built
  obtain rfl := Except.ok.inj ((same.trans ran).symm.trans ranAgain)
  rw [built, Report.ofOutcomes?_singleton _ rfl, concluded.eq_def]
  dsimp only
  have good : ∀ output, (Report.ofOutcomes [(page.toPath, Except.ok output)]).isOk = true :=
    fun output => Report.isOk_singleton _ _
  have code : ∀ output, (finished root format (.ofOutcomes [(page.toPath, .ok output)])
      (site.buildToFile page).2).exitCode = some 0 := by
    intro output
    rw [finished.eq_def, good]
    rfl
  constructor
  · rfl
  · rintro code ended
    exact .inl (Option.some.inj ended).symm
  · simp [code]
  · rw [code]
  · simp [code]
  · rw [← layout]
    exact fun _ => read
  · refine fun _ => ⟨rendered, ran, rfl, ?_⟩
    have remembered := @dependencies?_record site.project page page rendered.dependencies
    obtain ⟨old, held⟩ := Option.isSome_iff_exists.mp remembers
    rw [if_pos rfl, held, ← recorded] at remembered
    exact remembered
  · change (project.record page rendered.dependencies).dependencies? page = none
    rw [dependencies?_record, if_pos rfl, blank.dependencies?]
    rfl
  · rw [code]
    exact fun failed => absurd rfl failed

end

/-- A page at `/r` with a template. -/
def single : Disk :=
  .ofFiles [(⟨"/r/i.haste.html"⟩, "<t:a/>2"), (⟨"/r/a.html"⟩, "1")]

theorem plain_single : single.Plain :=
  Disk.plain_ofFiles (by decide)

section

-- The files are not to be written out where the disk is compared.
attribute [local irreducible] single

end

end Command

end Stencil
