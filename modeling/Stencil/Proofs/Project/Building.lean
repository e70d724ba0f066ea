import Stencil.Proofs.Project.Pages

/-!
# Builds of pages

The build of a page writes nothing but its output, and remembers nothing but its dependencies.  A
page that renders in one way whatever is written in the directory of the output has this rendering
there once it was built, and keeps it through all further builds.
-/

namespace Stencil.Project

open Render

variable {layout : Layout} {site before middle after : Site} {page other : Place}
  {sources : List Place} {rendered : Rendered}

/-- The output of a page is saved at its place. -/
theorem Layout.Hosts.writeOutput (hosts : layout.Hosts page) (absolute : layout.Absolute)
    (disk : Disk) (content : String) :
    layout.writeOutput disk page content =
      ((disk.save (layout.output page) content.toUTF8).1.map fun _ => layout.outputPath page,
        (disk.save (layout.output page) content.toUTF8).2) := by
  unfold Layout.writeOutput Disk.save Disk.makeAbove
  rw [destination_eq hosts.absolute, hosts.toPath_output absolute]
  dsimp only
  generalize layout.outputPath page = output
  cases output.parent? with
  | none =>
      dsimp only
      cases disk.write output content.toUTF8 <;> simp [Except.map]
  | some parent =>
      dsimp only
      rcases disk.makeDirectories parent with ⟨fault | _, middle⟩
      · simp [Except.map]
      · dsimp only
        cases middle.write output content.toUTF8 <;> simp [Except.map]

namespace Site

/-- A site without links whose project knows pages of a layout. -/
structure Ready (layout : Layout) (site : Site) : Prop where
  sound : site.project.Sound layout
  plain : site.disk.Plain

/-- Builds of some pages may lead from one site to another. -/
structure Leads (layout : Layout) (pages : List Place) (before after : Site) : Prop where
  ready : after.Ready layout
  disk : Disk.Keeps (fun location => ∀ page ∈ pages, location ≠ (layout.output page).names)
    before.disk after.disk
  dependencies : ∀ other, other ∉ pages →
    after.project.dependencies? other = before.project.dependencies? other
  knows : ∀ other, after.project.knows other = before.project.knows other

/-- The output of a page is on the disk. -/
def Standing (layout : Layout) (page : Place) (site : Site) : Prop :=
  ∃ content, site.disk.read (layout.outputPath page) = .ok (.file content)

/-- The output of a page on the disk is that of a rendering, and so are its dependencies. -/
structure Current (layout : Layout) (page : Place) (rendered : Rendered) (site : Site) : Prop where
  dependencies : site.project.dependencies? page = some rendered.dependencies
  output : site.disk.read (layout.outputPath page) = .ok (.file rendered.content.toUTF8)

/-- A page renders in one way, whatever becomes of the directory of the output. -/
def Steady (layout : Layout) (page : Place) (rendered : Rendered) (site : Site) : Prop :=
  ∀ disk, Disk.Keeps layout.Outside site.disk disk →
    layout.start.render disk page = .ok rendered

theorem Current.standing (current : site.Current layout page rendered) :
    site.Standing layout page :=
  ⟨_, current.output⟩

namespace Leads

theorem refl (ready : site.Ready layout) (pages : List Place) : Leads layout pages site site :=
  ⟨ready, .refl _ _, fun _ _ => rfl, fun _ => rfl⟩

theorem trans {pages more : List Place} (first : Leads layout pages before middle)
    (last : Leads layout more middle after) : Leads layout (pages ++ more) before after := by
  constructor
  · exact last.ready
  · apply (first.disk.weaken ?_).trans (last.disk.weaken ?_)
    · exact fun location apart page member => apart page (List.mem_append_left _ member)
    · exact fun location apart page member => apart page (List.mem_append_right _ member)
  · intro other apart
    rw [List.mem_append, not_or] at apart
    rw [last.dependencies other apart.2, first.dependencies other apart.1]
  · intro other
    rw [last.knows, first.knows]

variable {pages : List Place} (leads : Leads layout pages before after)
  (absolute : layout.Absolute) (hosts : ∀ page ∈ pages, layout.Hosts page)

include leads absolute hosts

/-- Builds write nothing outside of the directory of the output. -/
theorem outside : Disk.Keeps layout.Outside before.disk after.disk := by
  apply leads.disk.weaken
  rintro location outside page member rfl
  exact outside ((hosts page member).within_output absolute)

/-- Builds of other pages do not write the output of a page. -/
theorem read_output (also : layout.Hosts other) (apart : other ∉ pages) (plain : before.disk.Plain)
    {entry : Disk.Entry} (found : before.disk.read (layout.outputPath other) = .ok entry) :
    after.disk.read (layout.outputPath other) = .ok entry := by
  rw [← also.toPath_output absolute] at found ⊢
  apply leads.disk.read plain (also.absolute_output absolute) _ found
  intro page member same
  apply apart
  rwa [Layout.Hosts.output_injective absolute also (hosts page member) same]

theorem steady (steady : before.Steady layout other rendered) :
    after.Steady layout other rendered :=
  fun disk keeps => steady disk ((leads.outside absolute hosts).trans keeps)

end Leads

/-- The build of a page renders it, saves the output and remembers the dependencies. -/
theorem buildToFile_eq (ready : site.Ready layout) (absolute : layout.Absolute)
    (hosts : layout.Hosts page) :
    site.buildToFile page =
      match layout.start.render site.disk page with
      | .error error => (.error error, site)
      | .ok rendered =>
          match site.disk.save (layout.output page) rendered.content.toUTF8 with
          | (.error fault, disk) => (.error (.disk fault), { site with disk })
          | (.ok _, disk) =>
              (.ok (layout.outputPath page),
                ⟨site.project.record page rendered.dependencies, disk⟩) := by
  unfold buildToFile finish
  rw [ready.sound.render, ready.sound.same]
  cases layout.start.render site.disk page with
  | error error => rfl
  | ok rendered =>
      dsimp only
      rw [hosts.writeOutput absolute]
      rcases site.disk.save (layout.output page) rendered.content.toUTF8 with ⟨_ | _, disk⟩ <;> rfl

section OnePage

variable (ready : site.Ready layout) (absolute : layout.Absolute) (hosts : layout.Hosts page)

include ready absolute hosts

theorem leads_buildToFile : Leads layout [page] site (site.buildToFile page).2 := by
  rw [buildToFile_eq ready absolute hosts]
  cases layout.start.render site.disk page with
  | error error => exact .refl ready _
  | ok rendered =>
      have keeps := Disk.keeps_save ready.plain (hosts.absolute_output absolute)
        rendered.content.toUTF8
      have only : Disk.Keeps (fun location => ∀ other ∈ [page],
          location ≠ (layout.output other).names) site.disk
            (site.disk.save (layout.output page) rendered.content.toUTF8).2 :=
        keeps.weaken fun location apart => apart page List.mem_cons_self
      dsimp only
      generalize site.disk.save (layout.output page) rendered.content.toUTF8 = saved
        at keeps only ⊢
      rcases saved with ⟨_ | _, disk⟩
      · exact ⟨⟨ready.sound, keeps.plain ready.plain⟩, only, fun _ _ => rfl, fun _ => rfl⟩
      · refine ⟨⟨ready.sound.record _, keeps.plain ready.plain⟩, only, fun other apart => ?_,
          fun other => knows_record _⟩
        rw [List.mem_singleton] at apart
        dsimp only
        rw [dependencies?_record, if_neg (Ne.symm apart)]

/-- A page whose build succeeds was rendered, and its output is on the disk. -/
theorem of_buildToFile_ok {path : Path} (built : (site.buildToFile page).1 = .ok path) :
    ∃ rendered, layout.start.render site.disk page = .ok rendered ∧
      path = layout.outputPath page ∧
      (site.buildToFile page).2.disk.read (layout.outputPath page) =
        .ok (.file rendered.content.toUTF8) ∧
      (site.buildToFile page).2.project = site.project.record page rendered.dependencies := by
  rw [buildToFile_eq ready absolute hosts] at built ⊢
  cases ran : layout.start.render site.disk page with
  | error error =>
      rw [ran] at built
      cases built
  | ok rendered =>
      simp only [ran] at built ⊢
      have saves := @Disk.read_save site.disk (layout.output page) rendered.content.toUTF8
        ready.plain (hosts.absolute_output absolute)
      generalize site.disk.save (layout.output page) rendered.content.toUTF8 = saved
        at saves built ⊢
      rcases saved with ⟨_ | _, disk⟩
      · cases built
      · cases built
        refine ⟨rendered, rfl, rfl, ?_, rfl⟩
        rw [← hosts.toPath_output absolute]
        exact (saves rfl).1

/-- The output that is on the disk can be written again. -/
theorem buildToFile_ok_of_standing (standing : site.Standing layout page)
    (ran : layout.start.render site.disk page = .ok rendered) :
    (site.buildToFile page).1 = .ok (layout.outputPath page) := by
  rcases standing with ⟨old, found⟩
  rw [← hosts.toPath_output absolute] at found
  have saved := Disk.save_of_read ready.plain (hosts.absolute_output absolute) found
    rendered.content.toUTF8
  rw [buildToFile_eq ready absolute hosts, ran]
  dsimp only
  generalize site.disk.save (layout.output page) rendered.content.toUTF8 = ended at saved ⊢
  rcases ended with ⟨_ | _, disk⟩
  · cases saved
  · rfl

/-- A known page whose build succeeds is current. -/
theorem current_of_buildToFile_ok {path : Path} (known : site.project.knows page = true)
    (ran : layout.start.render site.disk page = .ok rendered)
    (built : (site.buildToFile page).1 = .ok path) :
    (site.buildToFile page).2.Current layout page rendered := by
  obtain ⟨again, ranAgain, -, read, project⟩ := of_buildToFile_ok ready absolute hosts built
  obtain rfl := Except.ok.inj (ran.symm.trans ranAgain)
  refine ⟨?_, read⟩
  rcases knows_iff.mp known with ⟨held, found⟩
  rw [project, dependencies?_record, if_pos rfl, dependencies?, found]
  rfl

end OnePage

section OtherPages

variable (ready : site.Ready layout) (absolute : layout.Absolute) (hosts : layout.Hosts page)
  (also : layout.Hosts other)

include ready absolute hosts also

theorem Standing.buildToFile (standing : site.Standing layout page) :
    (site.buildToFile other).2.Standing layout page := by
  by_cases same : other = page
  · subst same
    cases ran : layout.start.render site.disk other with
    | error error =>
        rw [buildToFile_eq ready absolute hosts, ran]
        exact standing
    | ok rendered =>
        have built := buildToFile_ok_of_standing ready absolute hosts standing ran
        obtain ⟨_, _, _, read, _⟩ := of_buildToFile_ok ready absolute hosts built
        exact ⟨_, read⟩
  · rcases standing with ⟨content, found⟩
    have leads := leads_buildToFile ready absolute also
    refine ⟨content, leads.read_output absolute ?_ hosts ?_ ready.plain found⟩
    · simpa using also
    · simpa using Ne.symm same

theorem Current.buildToFile (current : site.Current layout page rendered)
    (steady : site.Steady layout page rendered) :
    (site.buildToFile other).2.Current layout page rendered := by
  by_cases same : other = page
  · subst same
    have ran := steady site.disk (.refl _ _)
    have built := buildToFile_ok_of_standing ready absolute hosts current.standing ran
    have known : site.project.knows other = true := by
      rcases Option.map_eq_some_iff.mp current.dependencies with ⟨held, found, _⟩
      exact knows_iff.mpr ⟨held, found⟩
    exact current_of_buildToFile_ok ready absolute hosts known ran built
  · have leads := leads_buildToFile ready absolute also
    have apart : page ∉ [other] := by simpa using Ne.symm same
    constructor
    · rw [leads.dependencies page apart]
      exact current.dependencies
    · refine leads.read_output absolute ?_ hosts apart ready.plain current.output
      simpa using also

end OtherPages

section Runs

variable (ready : site.Ready layout) (absolute : layout.Absolute)
  (hosts : ∀ source ∈ sources, layout.Hosts source)

/-- Pages are built one after the other. -/
theorem buildEach_cons (page : Place) (rest : List Place) (pageAbsolute : page.Absolute) :
    site.buildEach ((page :: rest).map Place.toPath) =
      let (outcome, middle) := site.buildToFile page
      let (outcomes, after) := middle.buildEach (rest.map Place.toPath)
      ((page.toPath, outcome) :: outcomes, after) := by
  rw [List.map_cons, buildEach, Layout.resolve, Place.resolve_toPath _ pageAbsolute]

include ready absolute hosts

theorem leads_buildEach :
    Leads layout sources site (site.buildEach (sources.map Place.toPath)).2 := by
  induction sources generalizing site with
  | nil => exact .refl ready _
  | cons page rest ih =>
      have first := leads_buildToFile ready absolute (hosts page List.mem_cons_self)
      have last := ih first.ready fun other member => hosts other (List.mem_cons_of_mem _ member)
      rw [buildEach_cons page rest (hosts page List.mem_cons_self).absolute]
      exact first.trans last

theorem Standing.buildEach (also : layout.Hosts page) (standing : site.Standing layout page) :
    (site.buildEach (sources.map Place.toPath)).2.Standing layout page := by
  induction sources generalizing site with
  | nil => exact standing
  | cons first rest ih =>
      have here := hosts first List.mem_cons_self
      rw [buildEach_cons first rest here.absolute]
      apply ih (leads_buildToFile ready absolute here).ready
      · exact fun other member => hosts other (List.mem_cons_of_mem _ member)
      · exact standing.buildToFile ready absolute also here

theorem Current.buildEach (also : layout.Hosts page) (current : site.Current layout page rendered)
    (steady : site.Steady layout page rendered) :
    (site.buildEach (sources.map Place.toPath)).2.Current layout page rendered := by
  induction sources generalizing site with
  | nil => exact current
  | cons first rest ih =>
      have here := hosts first List.mem_cons_self
      have leads := leads_buildToFile ready absolute here
      rw [buildEach_cons first rest here.absolute]
      apply ih leads.ready
      · exact fun other member => hosts other (List.mem_cons_of_mem _ member)
      · exact current.buildToFile ready absolute also here steady
      · exact leads.steady absolute (by simpa using here) steady

/-- When all builds succeed, each output is on the disk. -/
theorem standing_of_buildEach (member : page ∈ sources)
    (built : ∀ outcome ∈ (site.buildEach (sources.map Place.toPath)).1,
      ∃ path, outcome.2 = .ok path) :
    (site.buildEach (sources.map Place.toPath)).2.Standing layout page := by
  induction sources generalizing site with
  | nil => cases member
  | cons first rest ih =>
      have here := hosts first List.mem_cons_self
      have others := fun other member => hosts other (List.mem_cons_of_mem first member)
      have leads := leads_buildToFile ready absolute here
      rw [buildEach_cons first rest here.absolute] at built ⊢
      rcases List.mem_cons.mp member with rfl | member
      · obtain ⟨path, ok⟩ := built _ List.mem_cons_self
        obtain ⟨_, _, _, read, _⟩ := of_buildToFile_ok ready absolute here ok
        exact Standing.buildEach leads.ready absolute others here ⟨_, read⟩
      · exact ih leads.ready others member fun outcome later =>
          built outcome (List.mem_cons_of_mem _ later)

/-- A steady page is current after builds among which is its own, unless its output could not be
written. -/
theorem current_of_buildEach (member : page ∈ sources) (known : site.project.knows page = true)
    (steady : site.Steady layout page rendered)
    (writable : site.Standing layout page ∨
      ∀ outcome ∈ (site.buildEach (sources.map Place.toPath)).1, ∃ path, outcome.2 = .ok path) :
    (site.buildEach (sources.map Place.toPath)).2.Current layout page rendered ∧
      (page.toPath, .ok (layout.outputPath page)) ∈
        (site.buildEach (sources.map Place.toPath)).1 := by
  induction sources generalizing site with
  | nil => cases member
  | cons first rest ih =>
      have here := hosts first List.mem_cons_self
      have others := fun other member => hosts other (List.mem_cons_of_mem first member)
      have leads := leads_buildToFile ready absolute here
      have steadyNext := leads.steady absolute (by simpa using here) steady
      rw [buildEach_cons first rest here.absolute] at writable ⊢
      by_cases same : first = page
      · subst same
        have ran := steady site.disk (.refl _ _)
        have ok : (site.buildToFile first).1 = .ok (layout.outputPath first) := by
          rcases writable with standing | built
          · exact buildToFile_ok_of_standing ready absolute here standing ran
          · obtain ⟨path, ok⟩ := built _ List.mem_cons_self
            obtain ⟨_, _, rfl, _⟩ := of_buildToFile_ok ready absolute here ok
            exact ok
        have current := current_of_buildToFile_ok ready absolute here known ran ok
        constructor
        · exact current.buildEach leads.ready absolute others here steadyNext
        · exact List.mem_cons.mpr (.inl (Prod.ext rfl ok.symm))
      · have later : page ∈ rest := (List.mem_cons.mp member).resolve_left (Ne.symm same)
        have writableNext := writable.imp
          (fun standing => standing.buildToFile ready absolute (others page later) here)
          fun built outcome member => built outcome (List.mem_cons_of_mem _ member)
        obtain ⟨current, found⟩ := ih leads.ready others later (by rw [leads.knows, known])
          steadyNext writableNext
        exact ⟨current, List.mem_cons_of_mem _ found⟩

end Runs

theorem buildAll_eq (site : Site) :
    site.buildAll =
      (Report.ofOutcomes? (site.buildEach (site.project.pages.keys.map Place.toPath)).1,
        (site.buildEach (site.project.pages.keys.map Place.toPath)).2) := rfl

theorem Ready.hosts_of_keys (ready : site.Ready layout) :
    ∀ page ∈ site.project.pages.keys, layout.Hosts page :=
  fun _ member => ready.sound.hosts (Std.ExtTreeMap.mem_keys.mp member)

theorem Ready.hosts_of_dependents (ready : site.Ready layout) (changed : Place) :
    ∀ page ∈ site.project.dependents changed, layout.Hosts page := by
  intro page member
  rcases ready.sound.mem_dependents.mp member with ⟨dependencies, found, -⟩
  rcases Option.map_eq_some_iff.mp found with ⟨held, known, -⟩
  exact (ready.sound.pages page held known).2

/-- A change of a file that is no page is built by building the pages that depend on it. -/
theorem notifyChange_snd (ready : site.Ready layout) {path : Path}
    (other : (layout.namesPage (layout.resolve path).toPath &&
      !layout.excludes (layout.resolve path).toPath) = false) :
    (site.notifyChange path).2 = (site.buildEach
      ((site.project.dependents (layout.resolve path)).map Place.toPath)).2 := by
  unfold notifyChange buildMany
  rw [ready.sound.same]
  simp only [other, Bool.false_eq_true, if_false]

/-- A file may be saved on a site that is ready. -/
theorem Ready.save (ready : site.Ready layout) {changed : Place} {content : ByteArray}
    {disk : Disk} (changedAbsolute : changed.Absolute)
    (saved : site.disk.save changed content = (.ok (), disk)) :
    Ready layout ⟨site.project, disk⟩ := by
  have keeps := Disk.keeps_save ready.plain changedAbsolute content
  rw [saved] at keeps
  exact ⟨ready.sound, keeps.plain ready.plain⟩

end Site

namespace Report

variable {outcomes : List (Path × Except Error Path)}

theorem isOk_ofOutcomes (ok : (ofOutcomes outcomes).isOk = true) :
    ∀ outcome ∈ outcomes, ∃ path, outcome.2 = .ok path := by
  rintro ⟨source, outcome⟩ member
  cases outcome with
  | ok path => exact ⟨path, rfl⟩
  | error error =>
      have failure : (⟨source, error⟩ : Failure) ∈ (ofOutcomes outcomes).failures := by
        rw [ofOutcomes, List.mem_mergeSort, List.mem_filterMap]
        exact ⟨_, member, rfl⟩
      rw [isOk, List.isEmpty_iff] at ok
      rw [ok] at failure
      cases failure

theorem mem_written_ofOutcomes {source path : Path} (member : (source, .ok path) ∈ outcomes) :
    path ∈ (ofOutcomes outcomes).written := by
  rw [ofOutcomes, List.mem_mergeSort, List.mem_filterMap]
  exact ⟨_, member, rfl⟩

end Report

end Stencil.Project
