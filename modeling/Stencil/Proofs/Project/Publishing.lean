import Stencil.Proofs.Project.Batches
import Stencil.Proofs.Project.Building
import Stencil.Proofs.Project.Freezing
import Stencil.Proofs.Text.Utf8

/-!
# Publishing a project

When a project is built whose output goes to a new directory below its root, every page that renders
gets its output, in whatever order the builds take their turns.  Two things may come between: an
output may be in the way of another one, and a page may look for a template where another page has
its output.
-/

namespace Stencil.Project

open Render

/-- The output of a project without links goes to a directory below the root which is not there
yet. -/
structure Layout.Fresh (layout : Layout) (disk : Disk) : Prop where
  plain : disk.Plain
  absolute : layout.root.Absolute
  root : disk.isDirectory layout.root.toPath = true
  inside : layout.outDir.Within layout.root
  vacant : disk.get? layout.outDir.names = none

namespace Site

/-- All pages that are known, as they are asked for. -/
def sources (site : Site) : List Path :=
  site.project.pages.keys.map Place.toPath

/-- Every page that is known renders. -/
def Renders (site : Site) : Prop :=
  ∀ source ∈ site.sources, ∃ rendered,
    site.project.render site.disk (site.place source) = .ok rendered

/-- The output of every page that is known could be saved, if it were the only one. -/
def Writable (site : Site) : Prop :=
  ∀ source ∈ site.sources,
    (site.disk.save (site.project.layout.output (site.place source)) .empty).1 = .ok ()

/-- No output is a directory above another one. -/
def Unobstructed (site : Site) : Prop :=
  ∀ source ∈ site.sources, ∀ other ∈ site.sources,
    site.output source <+: site.output other → site.output source = site.output other

/-- Nothing comes between the pages that are known and their outputs. -/
structure Publishable (site : Site) : Prop where
  renders : site.Renders
  writable : site.Writable
  unobstructed : site.Unobstructed
  unread : site.Unread site.sources

instance (site : Site) : Decidable site.Renders :=
  decidable_of_iff (∀ source ∈ site.sources,
    (site.project.render site.disk (site.place source)).toOption.isSome) <| by
      refine forall₂_congr fun source _ => ?_
      cases site.project.render site.disk (site.place source) <;> simp [Except.toOption]

instance (site : Site) : Decidable site.Writable :=
  decidable_of_iff (∀ source ∈ site.sources,
    (site.disk.save (site.project.layout.output (site.place source)) .empty).1.toOption.isSome) <| by
      refine forall₂_congr fun source _ => ?_
      cases (site.disk.save (site.project.layout.output (site.place source)) .empty).1 <;>
        simp [Except.toOption]

instance (site : Site) : Decidable site.Unobstructed :=
  inferInstanceAs (Decidable (∀ _ ∈ _, ∀ _ ∈ _, _ → _))

instance (site : Site) (sources : List Path) : Decidable (site.Unread sources) :=
  decidable_of_iff (∀ source ∈ sources, ∀ other ∈ sources, other ≠ source →
    ∀ place ∈ (site.candidates source).toList, place.components ≠ site.output other) <| by
      simp only [Std.ExtTreeSet.mem_toList]
      exact Iff.rfl

instance (site : Site) : Decidable site.Publishable :=
  decidable_of_iff
    (site.Renders ∧ site.Writable ∧ site.Unobstructed ∧ site.Unread site.sources)
    ⟨fun ⟨renders, writable, unobstructed, unread⟩ => ⟨renders, writable, unobstructed, unread⟩,
      fun publishable => ⟨publishable.renders, publishable.writable, publishable.unobstructed,
        publishable.unread⟩⟩

end Site

/-- Each page that is known to a site has an output of its own, which holds what the page renders to
there. -/
structure Batch.Publishes (first : Site) (batch : Batch) : Prop where
  failures : batch.report.failures = []
  written : batch.report.written.Perm
    (first.sources.map fun source => first.project.layout.outputPath (first.place source))
  distinct : batch.report.written.Nodup
  output : ∀ source ∈ first.sources, ∃ rendered,
    first.project.render first.disk (first.place source) = .ok rendered ∧
      batch.site.disk.read (first.project.layout.outputPath (first.place source)) =
        .ok (.file rendered.content.toUTF8)

variable {layout : Layout} {disk : Disk} {site first : Site} {page : Place}

namespace Layout.Fresh

variable (fresh : layout.Fresh disk)

include fresh

theorem layoutAbsolute : layout.Absolute :=
  ⟨fresh.absolute, fresh.inside.1.trans fresh.absolute⟩

/-- The root is there, so it does not lie in the directory of the output. -/
theorem apart : ¬layout.root.Within layout.outDir := by
  intro within
  have same : layout.outDir.names = layout.root.names :=
    within.2.eq_of_length_le fresh.inside.2.length_le
  have root := ((Disk.isDirectory_toPath fresh.plain fresh.absolute).mp fresh.root).2
  rw [← same, fresh.vacant] at root
  cases root

end Layout.Fresh

namespace Layout.Hosts

variable (hosts : layout.Hosts page) (absolute : layout.Absolute)

include hosts absolute

theorem components_output : (layout.outputPath page).components =
    (layout.output page).components := by
  rw [← hosts.toPath_output absolute, (hosts.absolute_output absolute).toPath,
    Path.components_fromRoot, (hosts.absolute_output absolute).components]

theorem putsAt : ∃ above html, layout.PutsAt page above (.name html) := by
  obtain ⟨front, last, html, stem, -, -, -, path⟩ := hosts.outputPath absolute
  refine ⟨layout.outDir.names ++ front, html, hosts.absolute, trivial, List.prefix_append _ _, ?_⟩
  rw [path, ← List.append_assoc, Path.fromRoot, List.map_append]
  rfl

/-- The output of a page lies below the directory of the output. -/
theorem outDir_above : layout.outDir.components <+: (layout.outputPath page).components ∧
    layout.outDir.components ≠ (layout.outputPath page).components := by
  obtain ⟨above, html, puts⟩ := hosts.putsAt absolute
  have path : (layout.outputPath page).components =
      (.root :: above.map .name) ++ [.name html] := puts.components
  have within : layout.outDir.components <+: .root :: above.map .name := by
    rw [absolute.outDir.components]
    exact (List.prefix_cons_inj _).mpr (puts.within.map _)
  rw [path]
  refine ⟨within.trans (List.prefix_append _ _), fun same => ?_⟩
  have shorter := within.length_le
  rw [same, List.length_append, List.length_singleton] at shorter
  omega

/-- When the output of a page can be saved, no file is where the directories above it go. -/
theorem file?_above (plain : disk.Plain) {content : ByteArray}
    (writable : (disk.save (layout.output page) content).1 = .ok ()) {location : Disk.Location}
    (within : location <+: layout.outDir.names) : disk.file? location = none := by
  obtain ⟨above, html, puts⟩ := hosts.putsAt absolute
  obtain ⟨after, made, -⟩ := puts.makeParents plain
  rw [puts.destination, ← hosts.toPath_output absolute, ← Disk.makeAbove_eq] at made
  have reached : (disk.pavement above).1 = .ok () := by
    rw [Disk.save, made] at writable
    cases outcome : (disk.pavement above).1 with
    | error fault =>
        rw [outcome] at writable
        cases writable
    | ok _ => rfl
  have free := @Disk.file?_of_pavement disk above
  rw [(Disk.pavement_ok reached).1] at free
  exact free location (within.trans puts.within)

/-- A page that renders is built when its output can be saved. -/
theorem buildToFile_ok (same : site.project.layout = layout) {rendered : Rendered}
    (ran : site.project.render site.disk page = .ok rendered)
    (writable : (site.disk.save (layout.output page) .empty).1 = .ok ()) :
    (site.buildToFile page).1 = .ok (layout.outputPath page) := by
  have saved := site.disk.save_congr (layout.output page) rendered.content.toUTF8 .empty
  rw [writable] at saved
  have wrote : (layout.writeOutput site.disk page rendered.content).1 =
      .ok (layout.outputPath page) := by
    rw [hosts.writeOutput absolute, saved]
    rfl
  unfold Site.buildToFile Site.finish
  rw [ran, same]
  dsimp only
  generalize layout.writeOutput site.disk page rendered.content = outcome at wrote ⊢
  rcases outcome with ⟨_, after⟩
  obtain rfl := wrote
  rfl

end Layout.Hosts

/-- All pages that are known to a site lie below the root of a fresh layout. -/
structure Site.Opened (layout : Layout) (site : Site) : Prop where
  same : site.project.layout = layout
  fresh : layout.Fresh site.disk
  hosts : ∀ page, site.project.knows page = true → layout.Hosts page

namespace Site.Opened

variable (opened : first.Opened layout)

include opened

theorem absolute : first.project.layout.Absolute := by
  rw [opened.same]
  exact opened.fresh.layoutAbsolute

/-- What is asked for is a page of the layout. -/
theorem hosts_place {source : Path} (member : source ∈ first.sources) :
    first.project.layout.Hosts (first.place source) ∧ source = (first.place source).toPath := by
  obtain ⟨page, known, rfl⟩ := List.mem_map.mp member
  have hosts := opened.hosts page (Std.ExtTreeMap.mem_keys.mp known)
  have place : first.place page.toPath = page := Place.resolve_toPath _ hosts.absolute
  rw [place, opened.same]
  exact ⟨hosts, rfl⟩

/-- The output of a page is that of its place. -/
theorem output_eq {source : Path} (member : source ∈ first.sources) :
    first.output source = (first.project.layout.output (first.place source)).components :=
  (opened.hosts_place member).1.components_output opened.absolute

theorem nodup : first.sources.Nodup := by
  refine List.pairwise_map.mpr ((nodup_keys first.project).imp_of_mem ?_)
  intro page other known also differ same
  have absolute := (opened.hosts page (Std.ExtTreeMap.mem_keys.mp known)).absolute
  have otherAbsolute := (opened.hosts other (Std.ExtTreeMap.mem_keys.mp also)).absolute
  apply differ
  rw [← Place.resolve_toPath page absolute, same, Place.resolve_toPath page otherAbsolute]

/-- Different pages have different outputs. -/
theorem output_ne {source other : Path} (member : source ∈ first.sources)
    (also : other ∈ first.sources) (differ : source ≠ other) :
    first.output source ≠ first.output other := by
  intro same
  obtain ⟨hosts, path⟩ := opened.hosts_place member
  obtain ⟨otherHosts, otherPath⟩ := opened.hosts_place also
  rw [opened.output_eq member, opened.output_eq also] at same
  apply differ
  rw [path, otherPath, Layout.Hosts.output_injective opened.absolute hosts otherHosts
    (congrArg Place.names (Place.components_injective same))]

section Builds

variable (publishable : first.Publishable)

include publishable

/-- A page is a file that can be reached. -/
theorem reachable {source : Path} (member : source ∈ first.sources) :
    (first.place source).Reachable ∧
      ∃ content, first.disk.get? (first.place source).names = some (.file content) := by
  obtain ⟨rendered, ran⟩ := publishable.renders source member
  obtain ⟨content, read, -⟩ := render_eq_ok_iff.mp ran
  exact (Disk.isFile_toPath opened.fresh.plain (opened.hosts_place member).1.absolute).mp
    (Layout.isFile_of_readText read)

theorem fits : first.frozen.Fits first.sources :=
  fun _ member => Disk.fits_of_short (opened.reachable publishable member).1.2

/-- Neither does a page lie in the directory of the output, nor is it a file above this. -/
theorem beside {source : Path} (member : source ∈ first.sources) :
    ¬(first.place source).Within first.project.layout.outDir ∧
      ¬first.project.layout.outDir.Within (first.place source) := by
  have hosts := (opened.hosts_place member).1
  refine ⟨hosts.apart, fun within => ?_⟩
  obtain ⟨-, content, held⟩ := opened.reachable publishable member
  have free := hosts.file?_above opened.absolute opened.fresh.plain
    (publishable.writable source member) within.2
  rw [Disk.file?, held] at free
  cases free

/-- On the frozen site, the builds do not meet. -/
theorem separates : first.frozen.Separates first.sources := by
  constructor
  · exact opened.fresh.plain
  · exact opened.absolute
  · intro source member place looked
    have here : place = first.place source :=
      looked.resolve_right Std.ExtTreeSet.not_mem_empty
    rw [here]
    exact opened.beside publishable member
  · exact fun source member => (opened.hosts_place member).1.outDir_above opened.absolute
  · refine opened.nodup.imp_of_mem fun {source other} member also differ => ?_
    exact ⟨fun within => opened.output_ne member also differ
        (publishable.unobstructed source member other also within),
      fun within => opened.output_ne also member (Ne.symm differ)
        (publishable.unobstructed other also source member within)⟩

/-- On its own, every page is built. -/
theorem buildToFile_frozen {source : Path} (member : source ∈ first.sources) :
    (first.frozen.buildToFile (first.place source)).1 =
      .ok (first.project.layout.outputPath (first.place source)) := by
  obtain ⟨rendered, ran⟩ := publishable.renders source member
  rw [← Site.render_frozen] at ran
  exact @Layout.Hosts.buildToFile_ok first.project.layout first.frozen _
    (opened.hosts_place member).1 opened.absolute rfl _ ran (publishable.writable source member)

end Builds

end Site.Opened

namespace Batch

variable (opened : first.Opened layout) (publishable : first.Publishable)

include opened publishable

/-- Since no page runs out of room, a batch is finished when all its builds are done. -/
theorem finished_of_stopped {schedule : List Nat}
    (stopped : ((start first first.sources).follow schedule).Stopped) :
    ((start first first.sources).follow schedule).Finished := by
  have separates := opened.separates publishable
  have fits := opened.fits publishable
  have mirrors := (Mirrors.start first.frozen first.sources).follow separates fits schedule
  rw [follow_frozen separates fits publishable.unread] at stopped ⊢
  refine (mirrors.settled stopped).finished_iff.mpr fun source member => ?_
  rw [Site.place_frozen, opened.buildToFile_frozen publishable member]
  rfl

/-- A batch that is finished comes to what four turns of each page make of the frozen site. -/
theorem mirrors_of_finished {schedule : List Nat}
    (finished : ((start first first.sources).follow schedule).Finished) :
    ∃ frozen : Batch, frozen.Finished ∧ frozen.Mirrors first.frozen first.sources (fun _ => 4) ∧
      (start first first.sources).follow schedule =
        frozen.withTemplates first.project.templates := by
  have separates := opened.separates publishable
  have fits := opened.fits publishable
  have live := follow_frozen separates fits publishable.unread schedule
  rw [live] at finished
  have mirrors := (Mirrors.start first.frozen first.sources).follow separates fits schedule
  exact ⟨(start first.frozen first.sources).follow schedule, finished,
    mirrors.settled finished.stopped, live⟩

/-- All pages have been built when a batch is finished. -/
theorem outcomes_of_finished {schedule : List Nat}
    (finished : ((start first first.sources).follow schedule).Finished) :
    ((start first first.sources).follow schedule).outcomes = first.sources.map fun source =>
      (source, .ok (first.project.layout.outputPath (first.place source))) := by
  obtain ⟨frozen, done, settled, live⟩ := mirrors_of_finished opened publishable finished
  rw [live]
  refine (settled.outcomes_eq done).trans (List.map_congr_left fun source member => ?_)
  exact congrArg (source, ·) (opened.buildToFile_frozen publishable member)

/-- All orders of the turns come to the same end. -/
theorem same_of_finished {schedule : List Nat}
    (finished : ((start first first.sources).follow schedule).Finished) :
    (some ((start first first.sources).follow schedule).report,
      ((start first first.sources).follow schedule).site) = first.buildAll := by
  obtain ⟨frozen, -, settled, live⟩ := mirrors_of_finished opened publishable finished
  have ends := finished_of_stopped opened publishable (stopped_sequence first first.sources)
  obtain ⟨inSequence, -, also, sequential⟩ := mirrors_of_finished opened publishable ends
  rw [live, settled.unique also, ← sequential]
  exact report_sequence ends

theorem publishes_of_finished {schedule : List Nat}
    (finished : ((start first first.sources).follow schedule).Finished) :
    ((start first first.sources).follow schedule).Publishes first := by
  have outcomes := outcomes_of_finished opened publishable finished
  have written := Report.written_perm (fun source => source)
    (fun source => .ok (first.project.layout.outputPath (first.place source))) first.sources
  have failures := Report.failures_perm (fun source => source)
    (fun source => .ok (first.project.layout.outputPath (first.place source))) first.sources
  rw [← outcomes] at written failures
  have outputs : (first.sources.filterMap fun source => (Except.ok (ε := Error)
      (first.project.layout.outputPath (first.place source))).toOption) =
        first.sources.map fun source => first.project.layout.outputPath (first.place source) :=
    congrFun List.filterMap_eq_map first.sources
  have none : (first.sources.filterMap fun source => Failure.ofOutcome? source
      (.ok (first.project.layout.outputPath (first.place source)))) = [] := by
    simp [Failure.ofOutcome?]
  rw [outputs] at written
  rw [none] at failures
  constructor
  · exact failures.eq_nil
  · exact written
  · refine written.nodup_iff.mpr (List.pairwise_map.mpr (opened.nodup.imp_of_mem ?_))
    intro source other member also differ same
    exact opened.output_ne member also differ (congrArg Path.components same)
  · intro source member
    obtain ⟨frozen, -, settled, live⟩ := mirrors_of_finished opened publishable finished
    obtain ⟨-, rendered, ran, -, held⟩ := settled.output
      (opened.separates publishable) member
      (opened.buildToFile_frozen publishable member)
    rw [Site.place_frozen, Site.disk_frozen, Site.render_frozen] at ran
    rw [live]
    exact ⟨rendered, ran, held⟩

end Batch

/-- All pages below the root can be made known, and when nothing comes between them and their outputs,
building them all publishes them, in whatever order the builds take their turns. -/
theorem Layout.Fresh.publishes (fresh : layout.Fresh disk) (templates : Templates) :
    ∃ count project,
      loadPath { layout, templates } disk layout.root.toPath = .ok (count, project) ∧
        (∀ page, project.knows page = true ↔
          layout.Discovers disk layout.scanDepth.toNat layout.root page) ∧
        let first : Site := ⟨project, disk⟩
        (first.Publishable → ∀ schedule,
          let batch := (Batch.start first first.sources).follow schedule
          ((∀ number < first.sources.length, 4 ≤ schedule.count number) → batch.Finished) ∧
            (batch.Finished →
              batch.Publishes first ∧ (some batch.report, batch.site) = first.buildAll)) := by
  obtain ⟨pages, spec, loaded⟩ := loadPath_root fresh.layoutAbsolute fresh.apart fresh.plain
    fresh.root templates
  have same := registerAll_same { layout, templates } pages
  have knows : ∀ page, (registerAll { layout, templates } pages).2.knows page = true ↔
      layout.Discovers disk layout.scanDepth.toNat layout.root page := by
    intro page
    rw [knows_registerAll, spec]
    simp [Project.knows]
  refine ⟨_, _, loaded, knows, fun publishable schedule => ?_⟩
  have opened : Site.Opened layout ⟨(registerAll { layout, templates } pages).2, disk⟩ :=
    ⟨same.1, fresh, fun page known =>
      ((knows page).mp known).hosts fresh.layoutAbsolute fresh.apart⟩
  refine ⟨fun enough => ?_, fun finished => ?_⟩
  · exact Batch.finished_of_stopped opened publishable (Batch.stopped_of_turns _ _ enough)
  · exact ⟨Batch.publishes_of_finished opened publishable finished,
      Batch.same_of_finished opened publishable finished⟩

/-- The site of a layout with given pages. -/
def Layout.siteWith (layout : Layout) (disk : Disk) (pages : List Place) : Site :=
  ⟨(registerAll { layout } pages).2, disk⟩

/-- What is made known by a search that gives the pages in order. -/
theorem Layout.Fresh.loadPath_of_search (fresh : layout.Fresh disk) {pages : List Place}
    (searched : (layout.search disk disk.names layout.scanDepth.toNat [] layout.root).toOption =
      some pages)
    (sorted : pages.Pairwise (comesFirst · ·)) :
    loadPath { layout } disk layout.root.toPath = .ok (registerAll { layout } pages) :=
  (loadPath_of_scan fresh.layoutAbsolute fresh.apart fresh.plain fresh.root
    (scan_of_sorted (ok_of_toOption searched) sorted) .files).2

/-- The layout of a project at `/r` whose output goes to a given directory. -/
def Layout.towards (outDir : String) : Layout where
  root := .ofPath ⟨"/r"⟩
  outDir := .ofPath ⟨outDir⟩
  extension := ".p"
  scanDepth := 1
  exclude := []
  dialect := {}
  room := 16

/-- Two pages, one of them in a directory, and a template that both use. -/
def nestedFiles : Disk :=
  .ofFiles [(⟨"/r/i.p"⟩, "<t:a/>"), (⟨"/r/d/k.p"⟩, "<t:a/>2"), (⟨"/r/a.html"⟩, "1")]

/-- The pages among them, in order. -/
def nestedPages : List Place :=
  [.ofPath ⟨"/r/d/k.p"⟩, .ofPath ⟨"/r/i.p"⟩]

/-- The site at `/r` with these files, before its pages are built. -/
def nested : Site :=
  Layout.siteWith (.towards "/r/o") nestedFiles nestedPages

/-- Two pages take their turns in disorder. -/
theorem Layout.Fresh.publishes_nested :
    ∃ count, loadPath { layout := .towards "/r/o" } nestedFiles (Layout.towards "/r/o").root.toPath =
        .ok (count, nested.project) ∧
      let batch := (Batch.start nested nested.sources).follow [1, 0, 1, 1, 0, 0, 1, 0]
      batch.Finished ∧ batch.Publishes nested := by
  have fresh : (Layout.towards "/r/o").Fresh nestedFiles :=
    ⟨Disk.plain_ofFiles (by decide), by decide +kernel, by decide +kernel, by decide +kernel,
      by decide +kernel⟩
  obtain ⟨count, project, loaded, -, publishes⟩ := Layout.Fresh.publishes fresh .files
  have searched : ((Layout.towards "/r/o").search nestedFiles nestedFiles.names
      (Layout.towards "/r/o").scanDepth.toNat [] (Layout.towards "/r/o").root).toOption =
        some nestedPages := by
    decide +kernel
  have known := fresh.loadPath_of_search searched (by decide +kernel)
  have same := Except.ok.inj (loaded.symm.trans known)
  obtain rfl : project = (registerAll { layout := .towards "/r/o" } nestedPages).2 :=
    congrArg Prod.snd same
  have publishable : nested.Publishable := by decide +kernel
  obtain ⟨finishes, published⟩ := publishes publishable [1, 0, 1, 1, 0, 0, 1, 0]
  have finished := finishes (by decide +kernel)
  exact ⟨count, loaded, finished, (published finished).1⟩

/-- A build has failed, or a page does not have its output. -/
def Batch.Misses (first : Site) (batch : Batch) : Prop :=
  batch.report.isOk = false ∨ ∃ source ∈ first.sources,
    (first.project.render first.disk (first.place source)).toOption.map (·.content) ≠
      (batch.site.disk.readText
        (first.project.layout.outputPath (first.place source))).toOption

instance (first : Site) (batch : Batch) : Decidable (batch.Misses first) :=
  inferInstanceAs (Decidable (_ ∨ _))

theorem Batch.Misses.not_publishes {batch : Batch} (misses : batch.Misses first) :
    ¬batch.Publishes first := by
  intro publishes
  rcases misses with failed | ⟨source, member, differs⟩
  · rw [Report.isOk, publishes.failures] at failed
    cases failed
  · obtain ⟨rendered, ran, held⟩ := publishes.output source member
    apply differs
    rw [ran, Disk.readText, held]
    dsimp only
    rw [Stencil.Text.fromUTF8?_toUTF8]
    rfl

/-- The pages of a fresh project all render, and something else holds of it, but in some order of
their turns they are not published. -/
def Layout.Unpublished (layout : Layout) (disk : Disk) (still : Site → Prop) : Prop :=
  layout.Fresh disk ∧ ∃ count project,
    loadPath { layout } disk layout.root.toPath = .ok (count, project) ∧
      let first : Site := ⟨project, disk⟩
      first.Renders ∧ still first ∧ ∃ schedule,
        let batch := (Batch.start first first.sources).follow schedule
        batch.Finished ∧ ¬batch.Publishes first

/-- Pages that are missed when they are built one after the other are not published. -/
theorem Layout.Fresh.unpublished {still : Site → Prop} {pages : List Place}
    (fresh : layout.Fresh disk)
    (searched : (layout.search disk disk.names layout.scanDepth.toNat [] layout.root).toOption =
      some pages)
    (sorted : pages.Pairwise (comesFirst · ·)) (renders : (layout.siteWith disk pages).Renders)
    (holds : still (layout.siteWith disk pages))
    (finished : ((Batch.start (layout.siteWith disk pages)
      (layout.siteWith disk pages).sources).follow
        (Batch.sequence 0 (layout.siteWith disk pages).sources.length)).Finished)
    (misses : ((Batch.start (layout.siteWith disk pages) (layout.siteWith disk pages).sources).follow
      (Batch.sequence 0 (layout.siteWith disk pages).sources.length)).Misses
        (layout.siteWith disk pages)) :
    layout.Unpublished disk still :=
  ⟨fresh, _, _, fresh.loadPath_of_search searched sorted, renders, holds, _,
    finished, misses.not_publishes⟩

/-- The output of one page is a directory above that of another one. -/
def obstructed : Disk :=
  .ofFiles [(⟨"/r/a.p"⟩, "1"), (⟨"/r/a.html/b.p"⟩, "2")]

/-- A page looks for a template where another page has its output, before it looks where there is
one. -/
def shadowed : Disk :=
  .ofFiles [(⟨"/r/css.p"⟩, "1"), (⟨"/r/z.p"⟩, "<t:x.css/>"), (⟨"/r/x.css"⟩, "2")]

/-- A file lies where the directory of the output would go. -/
def blocked : Disk :=
  .ofFiles [(⟨"/r/i.p"⟩, "1"), (⟨"/r/f"⟩, "2")]

theorem unpublished_obstructed : (Layout.towards "/r/o").Unpublished obstructed
    fun site => site.Writable ∧ site.Unread site.sources := by
  apply @Layout.Fresh.unpublished _ _ _ [.ofPath ⟨"/r/a.html/b.p"⟩, .ofPath ⟨"/r/a.p"⟩]
  · exact ⟨Disk.plain_ofFiles (by decide), by decide +kernel, by decide +kernel, by decide +kernel,
      by decide +kernel⟩
  all_goals decide +kernel

theorem unpublished_shadowed : (Layout.towards "/r/x").Unpublished shadowed
    fun site => site.Writable ∧ site.Unobstructed := by
  apply @Layout.Fresh.unpublished _ _ _ [.ofPath ⟨"/r/css.p"⟩, .ofPath ⟨"/r/z.p"⟩]
  · exact ⟨Disk.plain_ofFiles (by decide), by decide +kernel, by decide +kernel, by decide +kernel,
      by decide +kernel⟩
  all_goals decide +kernel

theorem unpublished_blocked : (Layout.towards "/r/f/o").Unpublished blocked
    fun site => site.Unobstructed ∧ site.Unread site.sources := by
  apply @Layout.Fresh.unpublished _ _ _ [.ofPath ⟨"/r/i.p"⟩]
  · exact ⟨Disk.plain_ofFiles (by decide), by decide +kernel, by decide +kernel, by decide +kernel,
      by decide +kernel⟩
  all_goals decide +kernel

/-- Pages are not published when one output is a directory above another one, when a page looks for a
template where another page has its output, or when an output cannot be saved. -/
theorem Layout.exists_unpublished :
    (Layout.towards "/r/o").Unpublished obstructed
        (fun site => site.Writable ∧ site.Unread site.sources) ∧
      (Layout.towards "/r/x").Unpublished shadowed
          (fun site => site.Writable ∧ site.Unobstructed) ∧
        (Layout.towards "/r/f/o").Unpublished blocked
          (fun site => site.Unobstructed ∧ site.Unread site.sources) :=
  ⟨unpublished_obstructed, unpublished_shadowed, unpublished_blocked⟩

end Stencil.Project
