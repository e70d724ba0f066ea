import Stencil.Proofs.Project.Framing
import Stencil.Proofs.Project.Runs

/-!
# What the change of a file is answered with

When a page changes, it is made known and built.  When any other file changes, the pages are built
that have used it in their last successful builds, as was remembered before the first build began.
Nothing changes about other pages: neither what is remembered of them nor their outputs, whatever the
order of the turns is.
-/

namespace Stencil.Project

variable {site first : Site} {path : Path} {pages : List Place} {outcome : Place → Except Error Path}

/-- A place has the name of a page and is not left out. -/
def Layout.Takes (layout : Layout) (place : Place) : Prop :=
  layout.namesPage place.toPath = true ∧ layout.excludes place.toPath = false

instance (layout : Layout) (place : Place) : Decidable (layout.Takes place) :=
  inferInstanceAs (Decidable (_ ∧ _))

namespace Site

/-- The batch that answers the change of a file, when its tasks have taken some turns. -/
def answer (site : Site) (path : Path) (schedule : List Nat) : Batch :=
  (Batch.start { site with project := (site.concerned path).1 } (site.concerned path).2).follow
    schedule

/-- Pages are those that the change of a file concerns. -/
structure Concerns (site : Site) (path : Path) (pages : List Place) : Prop where
  once : pages.Nodup
  sources : (site.concerned path).2 = pages.map Place.toPath
  /-- A page is built on its own.  It becomes known, unless it was known before. -/
  page : site.project.layout.Takes (site.place path) → pages = [site.place path] ∧
    ∀ page, (site.concerned path).1.pages[page]? = site.project.pages[page]?.or
      (if site.place path = page then some { source := site.place path } else none)
  /-- Any other file concerns the pages that depend on it, and no page becomes known. -/
  file : ¬site.project.layout.Takes (site.place path) →
    (site.concerned path).1 = site.project ∧ ∀ page, page ∈ pages ↔
      ∃ dependencies, site.project.dependencies? page = some dependencies ∧
        site.place path ∈ dependencies

/-- A batch has built pages, each with an outcome, and has changed nothing else about the site.  The
project is the one of the site with the pages that were made known before the first build. -/
structure Rebuilds (site : Site) (project : Project) (pages : List Place)
    (outcome : Place → Except Error Path) (batch : Batch) : Prop where
  /-- Each page is in the report once, with its output or as a failure. -/
  written : batch.report.written.Perm (pages.filterMap fun page => (outcome page).toOption)
  failures : batch.report.failures.Perm
    (pages.filterMap fun page => Failure.ofOutcome? page.toPath (outcome page))
  outputs : ∀ page ∈ pages, ∀ output, outcome page = .ok output →
    output = site.project.layout.outputPath page
  /-- Builds make no page known, and one that fails changes nothing that is remembered. -/
  known : ∀ page, batch.site.project.knows page = project.knows page
  failed : ∀ page ∈ pages, ∀ error, outcome page = .error error →
    batch.site.project.pages[page]? = project.pages[page]?
  others : ∀ page, page ∉ pages → batch.site.project.pages[page]? = site.project.pages[page]?
  /-- Without links, an output that no page of the batch has as well stays as it was. -/
  files : site.disk.Plain → ∀ page, site.project.knows page = true →
    (∀ other ∈ pages, (site.project.layout.outputPath other).components ≠
      (site.project.layout.outputPath page).components) →
    ∀ content, batch.site.disk.read (site.project.layout.outputPath page) = .ok (.file content) ↔
      site.disk.read (site.project.layout.outputPath page) = .ok (.file content)

theorem concerned_eq (absolute : site.project.layout.root.Absolute) (path : Path) :
    site.concerned path =
      if site.project.layout.Takes (site.place path) then
        (site.project.register (site.place path), [(site.place path).toPath])
      else (site.project, (site.project.dependents (site.place path)).map Place.toPath) := by
  have again : site.project.layout.resolve (site.project.layout.resolve path).toPath =
      site.project.layout.resolve path :=
    Place.resolve_toPath _ (absolute.resolve path)
  unfold concerned place Layout.Takes
  dsimp only
  rw [again]
  exact if_congr (by rw [Bool.and_eq_true, Bool.not_eq_true']) rfl rfl

/-- The pages that a change concerns are read off before the first build. -/
theorem Arises.exists_concerns (arises : site.Arises)
    (absolute : site.project.layout.root.Absolute) (path : Path) :
    ∃ pages, site.Concerns path pages := by
  have concerned := concerned_eq absolute path
  by_cases takes : site.project.layout.Takes (site.place path)
  · rw [if_pos takes] at concerned
    refine ⟨[site.place path], List.nodup_singleton _, by rw [concerned]; rfl, fun _ => ⟨rfl, ?_⟩,
      fun other => absurd takes other⟩
    intro page
    rw [concerned, getElem?_register]
  · rw [if_neg takes] at concerned
    refine ⟨_, nodup_dependents arises.keyed _, by rw [concerned], fun other => absurd other takes,
      fun _ => ⟨by rw [concerned], fun page => ?_⟩⟩
    exact mem_dependents arises.keyed

/-- The pages that a change concerns are absolute. -/
theorem Concerns.pageAbsolute (concerns : site.Concerns path pages) (arises : site.Arises)
    (absolute : site.project.layout.root.Absolute) {page : Place} (member : page ∈ pages) :
    page.Absolute := by
  by_cases takes : site.project.layout.Takes (site.place path)
  · rw [(concerns.page takes).1, List.mem_singleton] at member
    rw [member]
    exact absolute.resolve path
  · obtain ⟨dependencies, found, -⟩ := ((concerns.file takes).2 page).mp member
    obtain ⟨held, known, -⟩ := Option.map_eq_some_iff.mp found
    exact arises.pageAbsolute absolute (knows_iff.mpr ⟨held, known⟩)

/-- A page that is not concerned is known as before. -/
theorem Concerns.pages_concerned (concerns : site.Concerns path pages) {page : Place}
    (missing : page ∉ pages) :
    (site.concerned path).1.pages[page]? = site.project.pages[page]? := by
  by_cases takes : site.project.layout.Takes (site.place path)
  · obtain ⟨rfl, registered⟩ := concerns.page takes
    rw [registered, if_neg fun same => missing (by rw [same]; exact List.mem_singleton_self _),
      Option.or_none]
  · rw [(concerns.file takes).1]

end Site

/-- Outcomes that are listed in the order of pages belong to the pages. -/
theorem exists_outcome {outcomes : List (Path × Except Error Path)} (once : pages.Nodup)
    (sources : outcomes.map Prod.fst = pages.map Place.toPath) :
    ∃ outcome : Place → Except Error Path,
      outcomes = pages.map fun page => (page.toPath, outcome page) := by
  induction pages generalizing outcomes with
  | nil => exact ⟨fun _ => .ok default, List.map_eq_nil_iff.mp sources⟩
  | cons page rest ih =>
      obtain ⟨missing, once⟩ := List.nodup_cons.mp once
      obtain ⟨⟨source, own⟩, others, rfl, rfl, also⟩ := List.map_eq_cons_iff.mp sources
      obtain ⟨outcome, rfl⟩ := ih once also
      refine ⟨fun other => if other = page then own else outcome other, ?_⟩
      rw [List.map_cons]
      dsimp only
      rw [if_pos rfl]
      congr 1
      refine List.map_congr_left fun other member => ?_
      rw [if_neg]
      rintro rfl
      exact missing member

section Finished

variable {project : Project} {schedule : List Nat}

/-- The outcome of a page is the one that a task for it has come to. -/
theorem Batch.outcome_of_done
    (outcomes : ((start first (pages.map Place.toPath)).follow schedule).outcomes =
      pages.map fun page => (page.toPath, outcome page))
    (places : ∀ page ∈ pages, first.place page.toPath = page) {task : Task}
    {result : Except Error Path}
    (member : task ∈ ((start first (pages.map Place.toPath)).follow schedule).tasks)
    (done : task.stage = .done result) (ends : Error.ends result = true) :
    first.place task.source ∈ pages ∧ outcome (first.place task.source) = result := by
  have listed : (task.source, result) ∈
      ((start first (pages.map Place.toPath)).follow schedule).outcomes :=
    mem_outcomes.mpr ⟨task, member, rfl, done, ends⟩
  rw [outcomes, List.mem_map] at listed
  obtain ⟨page, inside, same⟩ := listed
  obtain ⟨source, rfl⟩ := Prod.mk.inj same
  rw [← source, places page inside]
  exact ⟨inside, rfl⟩

/-- A finished batch has built its pages, and nothing has changed about others. -/
theorem Site.rebuilds_of_finished (layout : project.layout = site.project.layout)
    (others : ∀ page, page ∉ pages → project.pages[page]? = site.project.pages[page]?)
    (once : pages.Nodup) (absolute : site.project.layout.root.Absolute)
    (placed : ∀ page ∈ pages, page.Absolute)
    (known : ∀ page, site.project.knows page = true → page.Absolute)
    (finished : ((Batch.start { site with project } (pages.map Place.toPath)).follow
      schedule).Finished) :
    ∃ outcome, site.Rebuilds project pages outcome
      ((Batch.start { site with project } (pages.map Place.toPath)).follow schedule) := by
  have places : ∀ page ∈ pages, Site.place { site with project } page.toPath = page :=
    fun page member => Place.resolve_toPath _ (placed page member)
  obtain ⟨outcome, outcomes⟩ := exists_outcome once
    ((Batch.sources_outcomes finished).trans (Batch.sources_start _ _ schedule))
  have built := fun task result => @Batch.outcome_of_done { site with project } pages outcome
    schedule outcomes places task result
  have report : ((Batch.start { site with project } (pages.map Place.toPath)).follow
      schedule).report = .ofOutcomes (pages.map fun page => (page.toPath, outcome page)) := by
    rw [Batch.report, outcomes]
  have entries := Batch.pages_follow { site with project } (pages.map Place.toPath) schedule
  refine ⟨outcome, ?_, ?_, ?_, ?_, ?_, ?_, ?_⟩
  · rw [report]
    exact Report.written_perm Place.toPath outcome pages
  · rw [report]
    exact Report.failures_perm Place.toPath outcome pages
  · intro page member output succeeded
    have listed : (page.toPath, .ok output) ∈ pages.map fun page => (page.toPath, outcome page) :=
      List.mem_map.mpr ⟨page, member, by rw [succeeded]⟩
    rw [← outcomes] at listed
    obtain ⟨task, there, source, done, -⟩ := Batch.mem_outcomes.mp listed
    rw [Batch.path_of_done _ _ schedule there done, source, places page member,
      Layout.destination_eq (placed page member), layout]
  · exact Batch.knows_follow _ schedule
  · intro page member error failed
    refine (entries page).resolve_right ?_
    rintro ⟨task, there, rfl, output, done⟩
    obtain ⟨-, succeeded⟩ := built _ _ there done rfl
    rw [failed] at succeeded
    cases succeeded
  · intro page missing
    refine ((entries page).resolve_right ?_).trans (others page missing)
    rintro ⟨task, there, rfl, output, done⟩
    exact missing (built _ _ there done rfl).1
  · intro plain page knows apart content
    have read := @Batch.read_follow { site with project } (pages.map Place.toPath) page
      (by rwa [layout]) plain (known page knows)
    rw [layout] at read
    refine read (fun source member => ?_) schedule content
    obtain ⟨other, inside, rfl⟩ := List.mem_map.mp member
    rw [places other inside]
    exact apart other inside

end Finished

/-- A site at which two pages have been built with a template, and a third one is known. -/
def Site.built : Site :=
  (Site.run ⟨{ layout := Batch.small.project.layout }, Batch.small.disk⟩
    [.register ⟨"i.p"⟩, .register ⟨"d/k.p"⟩, .register ⟨"d/.././j.p"⟩, .build ⟨"i.p"⟩,
      .build ⟨"/r/d/k.p"⟩]).2

theorem Site.arises_built : built.Arises :=
  ⟨_, _, _, _, rfl⟩

theorem Site.absolute_built : built.project.layout.root.Absolute := by
  unfold built
  rw [(Widens.run _ _).layout]
  decide

section

-- The site is not to be written out where the batch is looked at.
attribute [local irreducible] Site.built

end

end Stencil.Project
