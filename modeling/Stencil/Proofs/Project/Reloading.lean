import Stencil.Proofs.Project.Publishing
import Stencil.Proofs.Project.Rebuilding

/-!
# Loading and building again

What the builds of a project leave behind is nothing that a search of the root would take for a page.
So a project that is loaded again has the same pages, and when their builds look at nothing in the
directory of the output, building them again changes nothing.
-/

namespace Stencil.Project

open Render

variable {layout : Layout} {before after disk : Disk} {written : Disk.Location → ByteArray → Prop}

/-- No page is new to a search when directories were made on the way to the output, and files were
written in the directory of the output only. -/
theorem Layout.Discovers.of_develops {levels : Nat} {directory page : Place}
    (discovered : layout.Discovers after levels directory page) (layoutAbsolute : layout.Absolute)
    (absolute : directory.Absolute) (apart : ¬directory.Within layout.outDir) (plain : before.Plain)
    (develops : Disk.Develops layout.OnTheWay written before after)
    (inside : ∀ location content, written location content → ¬layout.Outside location) :
    layout.Discovers before levels directory page ∧ (before.get? page.names).isSome := by
  have also := develops.plain plain
  induction discovered with
  | @page _ directory name member passed other named =>
      have childAbsolute := absolute.child name
      have outside := not_within_child layoutAbsolute absolute apart passed
      rw [childAbsolute.within_iff layoutAbsolute.outDir] at outside
      rw [Disk.mem_names] at member
      have same : before.get? (directory.child name).names =
          after.get? (directory.child name).names := by
        rcases develops.get? (directory.child name).names with same | ⟨-, made, reachable, -⟩ |
          ⟨content, -, -, wrote⟩
        · exact same.symm
        · have opened : (directory.child name).Reachable := by
            rwa [childAbsolute.ext (Place.absolute_root _) rfl]
          rw [(Disk.isDirectory_toPath also childAbsolute).mpr ⟨opened, made⟩] at other
          cases other
        · exact absurd outside (inside _ content wrote)
      have kind : before.isDirectory (directory.child name).toPath =
          after.isDirectory (directory.child name).toPath := by
        rw [Bool.eq_iff_iff, Disk.isDirectory_toPath plain childAbsolute,
          Disk.isDirectory_toPath also childAbsolute, same]
      have there : (before.get? (directory.child name).names).isSome := by
        rw [same]
        exact member
      refine ⟨.page (Disk.mem_names.mpr there) ?_ (kind.trans other) named, there⟩
      unfold passesOver at passed ⊢
      rw [kind, passed]
  | @inside _ directory page name member passed inner discovered ih =>
      have childAbsolute := absolute.child name
      obtain ⟨found, there⟩ :=
        ih childAbsolute (not_within_child layoutAbsolute absolute apart passed)
      obtain ⟨rest, some, names⟩ := found.names_eq
      obtain ⟨entry, held⟩ := Option.isSome_iff_exists.mp there
      rw [names] at held
      have opened := Disk.get?_of_append some held
      have reachable := ((Disk.isDirectory_toPath also childAbsolute).mp inner).1
      have kind := (Disk.isDirectory_toPath plain childAbsolute).mpr ⟨reachable, opened⟩
      refine ⟨.inside (Disk.mem_names.mpr (Option.isSome_iff_exists.mpr ⟨_, opened⟩)) ?_ kind found,
        there⟩
      unfold passesOver at passed ⊢
      rw [kind, ← inner, passed]

section Loading

variable (absolute : layout.Absolute) (apart : ¬layout.root.Within layout.outDir)
  {templates : Templates} {found : Nat × Project}

include absolute

/-- A root that is a file is made known itself. -/
theorem Layout.loadPath_file {content : ByteArray}
    (read : disk.read layout.root.toPath = .ok (.file content)) (templates : Templates) :
    loadPath { layout, templates } disk layout.root.toPath =
      .ok (registerAll { layout, templates } [layout.root]) := by
  have place : layout.resolve layout.root.toPath = layout.root :=
    Place.resolve_toPath _ absolute.root
  unfold loadPath
  dsimp only
  rw [place, read]
  dsimp only
  rw [place]

include apart

/-- A project that is loaded has the pages that are discovered below its root, unless the root is a
file. -/
theorem Layout.loadPath_cases (plain : disk.Plain)
    (loaded : loadPath { layout, templates } disk layout.root.toPath = .ok found) :
    (∃ content, disk.read layout.root.toPath = .ok (.file content) ∧
        found = registerAll { layout, templates } [layout.root]) ∨
      disk.isDirectory layout.root.toPath = true ∧ ∃ pages,
        (∀ page, page ∈ pages ↔
          layout.Discovers disk layout.scanDepth.toNat layout.root page) ∧
            found = registerAll { layout, templates } pages := by
  cases read : disk.read layout.root.toPath with
  | error fault =>
      have place : layout.resolve layout.root.toPath = layout.root :=
        Place.resolve_toPath _ absolute.root
      unfold loadPath at loaded
      dsimp only at loaded
      rw [place, read] at loaded
      cases loaded
  | ok entry =>
      cases entry with
      | file content =>
          rw [loadPath_file absolute read] at loaded
          exact .inl ⟨content, rfl, (Except.ok.inj loaded).symm⟩
      | directory =>
          have root : disk.isDirectory layout.root.toPath = true := by
            rw [Disk.isDirectory, read]
          obtain ⟨pages, spec, same⟩ := loadPath_root absolute apart plain root templates
          rw [same] at loaded
          exact .inr ⟨root, pages, spec, (Except.ok.inj loaded).symm⟩
      | link target =>
          exact absurd ((Disk.read_toPath plain absolute.root _).mp read).2 (plain _ target)

/-- A project that is loaded again has the same pages. -/
theorem Layout.loadPath_later
    (loaded : loadPath { layout, templates } before layout.root.toPath = .ok found)
    (plain : before.Plain) (develops : Disk.Develops layout.OnTheWay written before after)
    (inside : ∀ location content, written location content → ¬layout.Outside location) :
    loadPath { layout, templates } after layout.root.toPath = .ok found := by
  have also := develops.plain plain
  have outside : layout.Outside layout.root.names := by
    rwa [absolute.root.within_iff absolute.outDir] at apart
  have kept : ∀ location, layout.Outside location → (before.get? location).isSome →
      after.get? location = before.get? location := by
    intro location outside there
    exact develops.get?_of_there there fun content wrote => inside location content wrote outside
  rcases loadPath_cases absolute apart plain loaded with ⟨content, read, rfl⟩ |
    ⟨root, pages, spec, rfl⟩
  · apply loadPath_file absolute
    obtain ⟨reachable, held⟩ := (Disk.read_toPath plain absolute.root _).mp read
    refine (Disk.read_toPath also absolute.root _).mpr ⟨reachable, ?_⟩
    rw [kept _ outside (Option.isSome_iff_exists.mpr ⟨_, held⟩), held]
  · obtain ⟨reachable, held⟩ := (Disk.isDirectory_toPath plain absolute.root).mp root
    have rootLater := (Disk.isDirectory_toPath also absolute.root).mpr
      ⟨reachable, develops.directory held⟩
    obtain ⟨later, specLater, loadedLater⟩ :=
      loadPath_root absolute apart also rootLater templates
    rw [loadedLater]
    refine congrArg _ (registerAll_congr _ fun page => ?_)
    rw [spec, specLater]
    refine ⟨fun discovered => ?_, fun discovered => ?_⟩
    · exact (discovered.of_develops absolute absolute.root apart plain develops inside).1
    · refine discovered.mono absolute absolute.root apart plain also fun location outside there => ?_
      rw [kept location outside there]
      exact ⟨there, Iff.rfl⟩

/-- The pages of a project that is loaded are there, lie beside the directory of the output and have
outputs of their own. -/
theorem Layout.pages_of_loadPath (plain : disk.Plain)
    (loaded : loadPath { layout, templates } disk layout.root.toPath = .ok found) :
    ∃ pages, found = registerAll { layout, templates } pages ∧
      (∀ page ∈ pages, page.Absolute ∧ (disk.get? page.names).isSome ∧ ¬page.Within layout.outDir) ∧
        ∀ page ∈ pages, ∀ other ∈ pages,
          layout.outputPath page = layout.outputPath other → page = other := by
  rcases loadPath_cases absolute apart plain loaded with ⟨content, read, rfl⟩ |
    ⟨-, pages, spec, rfl⟩
  · refine ⟨[layout.root], rfl, fun page member => ?_, fun page member other also _ => ?_⟩
    · obtain rfl := List.mem_singleton.mp member
      obtain ⟨-, held⟩ := (Disk.read_toPath plain absolute.root _).mp read
      exact ⟨absolute.root, Option.isSome_iff_exists.mpr ⟨_, held⟩, apart⟩
    · rw [List.mem_singleton.mp member, List.mem_singleton.mp also]
  · have hosts := fun page member => ((spec page).mp member).hosts absolute apart
    refine ⟨pages, rfl, fun page member => ?_, fun page member other also same => ?_⟩
    · have still : Disk.Develops layout.OnTheWay (fun _ _ => False) disk disk := .refl _ _ _
      have found := ((spec page).mp member).of_develops absolute absolute.root apart plain still nofun
      exact ⟨(hosts page member).absolute, found.2, (hosts page member).apart⟩
    · apply Layout.Hosts.output_injective absolute (hosts page member) (hosts other also)
      rw [output, output, same]

end Loading

/-- The builds of a project that is loaded do not look at what they leave behind, when they look at
nothing in the directory of the output. -/
theorem Site.beside_of_loadPath {first : Site} {count : Nat}
    (absolute : first.project.layout.Absolute)
    (apart : ¬first.project.layout.root.Within first.project.layout.outDir)
    (plain : first.disk.Plain)
    (loaded : loadPath { layout := first.project.layout, templates := first.project.templates }
      first.disk first.project.layout.root.toPath = .ok (count, first.project))
    (unread : ∀ source ∈ first.sources, ∀ place ∈ first.candidates source,
      ¬place.Within first.project.layout.outDir) : first.Beside first.sources := by
  obtain ⟨pages, same, lies, distinct⟩ := Layout.pages_of_loadPath absolute apart plain loaded
  have known : ∀ source ∈ first.sources, first.place source ∈ pages := by
    intro source member
    obtain ⟨page, known, rfl⟩ := List.mem_map.mp member
    have listed : page ∈ pages := by
      have project : first.project = _ := congrArg Prod.snd same
      have registered : first.project.knows page = true := Std.ExtTreeMap.mem_keys.mp known
      rw [project, knows_registerAll] at registered
      exact registered.resolve_right (by simp [Project.knows])
    have place : first.place page.toPath = page := Place.resolve_toPath _ (lies page listed).1
    rwa [place]
  refine ⟨plain, absolute, fun source member => ?_, fun source member => ?_, unread,
    fun source member other also => ?_⟩
  · exact (lies _ (known source member)).2.1
  · obtain ⟨pageAbsolute, -, outside⟩ := lies _ (known source member)
    rwa [pageAbsolute.within_iff absolute.outDir] at outside
  · exact distinct _ (known source member) _ (known other also)

/-- All pages of a project are built, with builds that look at nothing in the directory of the output.
Then the project is loaded again from the disk that the builds have left behind, and has the same
pages.  When they are built once more, in whatever order, the report is the same, the same is
remembered, and the disk stays as it is. -/
theorem Layout.loadPath_rebuilds {count : Nat} {project : Project} {templates : Templates}
    (absolute : layout.Absolute) (plain : disk.Plain) (apart : ¬layout.root.Within layout.outDir)
    (loaded : loadPath { layout, templates } disk layout.root.toPath = .ok (count, project))
    (unread : ∀ source ∈ Site.sources ⟨project, disk⟩,
      ∀ place ∈ Site.candidates ⟨project, disk⟩ source, ¬place.Within layout.outDir)
    (schedule : List Nat) :
    let first : Site := ⟨project, disk⟩
    let batch := (Batch.start first first.sources).follow schedule
    ((∀ number < first.sources.length, 4 ≤ schedule.count number) → ¬batch.Overflows →
        batch.Finished) ∧
      (batch.Finished →
        loadPath { layout, templates } batch.site.disk layout.root.toPath = .ok (count, project) ∧
          ∀ again, let second :=
              (Batch.start ⟨project, batch.site.disk⟩ first.sources).follow again
            ((∀ number < first.sources.length, 4 ≤ again.count number) → second.Finished) ∧
              (second.Finished → second.report = batch.report ∧ second.site = batch.site)) := by
  intro first batch
  obtain ⟨rfl, rfl⟩ : layout = first.project.layout ∧ templates = first.project.templates := by
    obtain ⟨pages, same, -⟩ := pages_of_loadPath absolute apart plain loaded
    have kept := registerAll_same { layout, templates } pages
    rw [← same] at kept
    exact ⟨kept.1.symm, kept.2.symm⟩
  have beside : first.Beside first.sources :=
    Site.beside_of_loadPath absolute apart plain loaded unread
  have retraces : batch.Retraces first first.sources :=
    (Batch.Retraces.start (.refl _ _ _)).follow beside schedule
  refine ⟨fun enough fits => (Batch.stopped_of_turns _ _ enough).finished fits,
    fun finished => ⟨?_, fun again => ?_⟩⟩
  · exact loadPath_later absolute apart loaded plain retraces.led
      fun _ _ outputs => outputs.not_outside
  · have begun := @Batch.Retraces.start first first.sources batch.site.disk retraces.led
    have second := begun.follow beside again
    have final : ∀ source ∈ first.sources, ∃ outcome,
        (Stage.done outcome).Retraced first (first.place source) batch.site.disk := by
      intro source member
      rw [← retraces.asked] at member
      obtain ⟨task, there, rfl⟩ := List.mem_map.mp member
      obtain ⟨outcome, done⟩ := finished.stopped task there
      exact ⟨outcome, done ▸ retraces.tasks task there⟩
    have still := begun.disk_follow beside final again
    have same := retraces.unique second still finished.stopped
    constructor
    · intro enough
      rw [same (Batch.stopped_of_turns _ _ enough)]
      exact finished
    · intro secondFinished
      rw [same secondFinished.stopped]
      exact ⟨rfl, rfl⟩

/-- Two pages of which one fails, as it asks for a template that is missing. -/
def halfFiles : Disk :=
  .ofFiles [(⟨"/r/i.p"⟩, "<t:a/>"), (⟨"/r/d/k.p"⟩, "<t:b/>"), (⟨"/r/a.html"⟩, "1")]

/-- The site at `/r` with these files, before its pages are built. -/
def half : Site :=
  Layout.siteWith (.towards "/r/o/x") halfFiles nestedPages

theorem plain_halfFiles : halfFiles.Plain :=
  Disk.plain_ofFiles (by decide)

section

-- The files are not to be written out where the disk is compared.
attribute [local irreducible] halfFiles

/-- The turns of two builds, and then those of the same builds in another order. -/
theorem Layout.loadPath_rebuilds_half :
    ∃ count, loadPath { layout := .towards "/r/o/x" } halfFiles
        (Layout.towards "/r/o/x").root.toPath = .ok (count, half.project) ∧
      let batch := (Batch.start half half.sources).follow [1, 0, 1, 1, 0, 0, 1, 0]
      let second := (Batch.start ⟨half.project, batch.site.disk⟩ half.sources).follow
        [0, 0, 0, 0, 1, 1, 1, 1]
      batch.Finished ∧ second.Finished ∧
        second.report = batch.report ∧ second.site = batch.site := by
  have fresh : (Layout.towards "/r/o/x").Fresh halfFiles :=
    ⟨plain_halfFiles, by decide +kernel, by decide +kernel, by decide +kernel, by decide +kernel⟩
  have searched : ((Layout.towards "/r/o/x").search halfFiles halfFiles.names
      (Layout.towards "/r/o/x").scanDepth.toNat [] (Layout.towards "/r/o/x").root).toOption =
        some nestedPages := by
    decide +kernel
  have loaded : loadPath { layout := .towards "/r/o/x" } halfFiles
      (Layout.towards "/r/o/x").root.toPath =
        .ok ((registerAll { layout := .towards "/r/o/x" } nestedPages).1, half.project) :=
    fresh.loadPath_of_search searched (by decide +kernel)
  have unread : ∀ source ∈ half.sources, ∀ place ∈ (half.candidates source).toList,
      ¬place.Within (Layout.towards "/r/o/x").outDir := by
    decide +kernel
  obtain ⟨finishes, rebuilds⟩ := Layout.loadPath_rebuilds fresh.layoutAbsolute fresh.plain
    fresh.apart loaded
    (fun source member place looked =>
      unread source member place (Std.ExtTreeSet.mem_toList.mpr looked))
    [1, 0, 1, 1, 0, 0, 1, 0]
  have enough : ∀ number < half.sources.length, 4 ≤ [1, 0, 1, 1, 0, 0, 1, 0].count number := by
    decide +kernel
  have fits : ¬((Batch.start half half.sources).follow [1, 0, 1, 1, 0, 0, 1, 0]).Overflows := by
    decide +kernel
  have finished := finishes enough fits
  obtain ⟨finishesAgain, same⟩ := (rebuilds finished).2 [0, 0, 0, 0, 1, 1, 1, 1]
  have enoughAgain : ∀ number < half.sources.length,
      4 ≤ [0, 0, 0, 0, 1, 1, 1, 1].count number := by
    decide +kernel
  have finishedAgain := finishesAgain enoughAgain
  exact ⟨_, loaded, finished, finishedAgain, same finishedAgain⟩

end

end Stencil.Project
