import Stencil.Proofs.Project.Reached

/-!
# Rebuilding converges

Of each file that changes, only the pages that depend on it are built again.  As long as the last
build of a page succeeded and no file has appeared since where that build had looked for a template
in vain, its output is the one that building the whole project anew would write.
-/

namespace Stencil.Project

open Render

variable {layout : Layout} {source : Place} {rendered : Rendered} {site : Site}

/-- A disk has the files that the build of a page has found on another one, and no others where it
has looked. -/
structure Agrees (layout : Layout) (source : Place) (seen disk : Disk) : Prop where
  page : disk.file? source.names = seen.file? source.names
  templates : ∀ place ∈ layout.start.lookups seen source, place.Absolute →
    disk.file? place.names = seen.file? place.names

namespace Agrees

variable {seen disk after : Disk}

/-- Whatever is written to the directory of the output, a page finds the same files. -/
theorem of_keeps (agrees : Agrees layout source seen disk) (absolute : layout.Absolute)
    (hosts : layout.Hosts source)
    (outside : ∀ place ∈ layout.start.lookups seen source, ¬place.Within layout.outDir)
    (keeps : Disk.Keeps layout.Outside disk after) : Agrees layout source seen after := by
  constructor
  · rw [keeps.file? (hosts.outside absolute), agrees.page]
  · intro place looked placeAbsolute
    have there : layout.Outside place.names := by
      rw [Layout.Outside, ← placeAbsolute.within_iff absolute.outDir]
      exact outside place looked
    rw [keeps.file? there, agrees.templates place looked placeAbsolute]

/-- A page that finds the files of its last build is steady. -/
theorem steady (agrees : Agrees layout source seen site.disk) (absolute : layout.Absolute)
    (hosts : layout.Hosts source) (plain : seen.Plain) (also : site.disk.Plain)
    (outside : ∀ place ∈ layout.start.lookups seen source, ¬place.Within layout.outDir)
    (succeeded : layout.start.render seen source = .ok rendered) :
    site.Steady layout source rendered := by
  intro disk keeps
  have still := agrees.of_keeps absolute hosts outside keeps
  exact Layout.render_congr absolute plain (keeps.plain also) hosts.absolute succeeded still.page
    still.templates

end Agrees

/-- A file was saved outside of the directory of the output. -/
structure Saved (layout : Layout) (changed : Place) (before after : Disk) : Prop where
  absolute : changed.Absolute
  elsewhere : ¬changed.Within layout.outDir
  plain : before.Plain
  keeps : Disk.Keeps (· ≠ changed.names) before after
  retains : Disk.Retains layout.Outside before after

namespace Saved

variable {changed : Place} {seen before after : Disk}

theorem of_save {content : ByteArray} (changedAbsolute : changed.Absolute)
    (elsewhere : ¬changed.Within layout.outDir) (plain : before.Plain)
    (saved : before.save changed content = (.ok (), after)) : Saved layout changed before after := by
  have keeps := Disk.keeps_save plain changedAbsolute content
  have retains := @Disk.retains_save before changed content plain changedAbsolute
  rw [saved] at keeps retains
  exact ⟨changedAbsolute, elsewhere, plain, keeps, fun location _ => retains rfl location trivial⟩

/-- The file is not the output of a page. -/
theorem read_output (saved : Saved layout changed before after) (absolute : layout.Absolute)
    (hosts : layout.Hosts source) {entry : Disk.Entry}
    (found : before.read (layout.outputPath source) = .ok entry) :
    after.read (layout.outputPath source) = .ok entry := by
  rw [← hosts.toPath_output absolute] at found ⊢
  apply saved.keeps.read saved.plain (hosts.absolute_output absolute) _ found
  intro same
  have elsewhere := saved.elsewhere
  rw [saved.absolute.within_iff absolute.outDir, ← same] at elsewhere
  exact elsewhere (hosts.within_output absolute)

/-- Where the last build has not looked, the file leaves all that was found. -/
theorem agrees (saved : Saved layout changed before after) (hosts : layout.Hosts source)
    (otherPage : source ≠ changed) (unread : changed ∉ layout.start.lookups seen source)
    (agrees : Agrees layout source seen before) : Agrees layout source seen after := by
  constructor
  · rw [← agrees.page]
    apply saved.keeps.file?
    exact fun same => otherPage (hosts.absolute.ext saved.absolute same)
  · intro place looked placeAbsolute
    rw [← agrees.templates place looked placeAbsolute]
    apply saved.keeps.file?
    intro same
    obtain rfl := placeAbsolute.ext saved.absolute same
    exact unread looked

end Saved

/-- A page is known, has its output on the disk, and is found again from the root. -/
structure Stays (layout : Layout) (source : Place) (site : Site) : Prop where
  ready : site.Ready layout
  known : site.project.knows source = true
  standing : site.Standing layout source
  root : site.disk.isDirectory layout.root.toPath = true
  discovered : layout.Discovers site.disk layout.scanDepth.toNat layout.root source

/-- The output of a page is what it had rendered to on a disk that has the same files for it. -/
structure UpToDate (layout : Layout) (source : Place) (seen : Disk) (rendered : Rendered)
    (site : Site) : Prop where
  current : site.Current layout source rendered
  agrees : Agrees layout source seen site.disk

/-- What holds of a page from the first build on.  The output is up to date, as far as that can be
told from the history. -/
structure Follows (layout : Layout) (source : Place) (site : Site) (history : History) : Prop where
  stays : Stays layout source site
  seen : history.seen.Plain
  upToDate : history.Clear layout source → ∀ rendered,
    layout.start.render history.seen source = .ok rendered →
      UpToDate layout source history.seen rendered site

theorem Stays.hosts (stays : Stays layout source site) : layout.Hosts source :=
  stays.ready.sound.hosts stays.known

section Builds

variable {pages : List Place} (ready : site.Ready layout) (absolute : layout.Absolute)
  (hosts : ∀ page ∈ pages, layout.Hosts page) (here : layout.Hosts source)

include ready absolute hosts here

/-- An output that is up to date stays so when pages are built. -/
theorem UpToDate.buildEach {seen : Disk} (upToDate : UpToDate layout source seen rendered site)
    (plain : seen.Plain)
    (outside : ∀ place ∈ layout.start.lookups seen source, ¬place.Within layout.outDir)
    (succeeded : layout.start.render seen source = .ok rendered) :
    UpToDate layout source seen rendered (site.buildEach (pages.map Place.toPath)).2 := by
  have steady : site.Steady layout source rendered :=
    upToDate.agrees.steady absolute here plain ready.plain outside succeeded
  have keeps := (Site.leads_buildEach ready absolute hosts).outside absolute hosts
  constructor
  · exact upToDate.current.buildEach ready absolute hosts here steady
  · exact upToDate.agrees.of_keeps absolute here outside keeps

/-- An output is up to date when its page is built again. -/
theorem upToDate_of_buildEach (member : source ∈ pages) (known : site.project.knows source = true)
    (outside : ∀ place ∈ layout.start.lookups site.disk source, ¬place.Within layout.outDir)
    (succeeded : layout.start.render site.disk source = .ok rendered)
    (writable : site.Standing layout source ∨
      ∀ outcome ∈ (site.buildEach (pages.map Place.toPath)).1, ∃ path, outcome.2 = .ok path) :
    UpToDate layout source site.disk rendered (site.buildEach (pages.map Place.toPath)).2 := by
  have agrees : Agrees layout source site.disk site.disk := ⟨rfl, fun _ _ _ => rfl⟩
  have steady : site.Steady layout source rendered :=
    agrees.steady absolute here ready.plain ready.plain outside succeeded
  have keeps := (Site.leads_buildEach ready absolute hosts).outside absolute hosts
  constructor
  · exact (Site.current_of_buildEach ready absolute hosts member known steady writable).1
  · exact agrees.of_keeps absolute here outside keeps

end Builds

/-- An output that is up to date stays so when a file is saved where its last build has not
looked. -/
theorem UpToDate.save {changed : Place} {seen disk : Disk}
    (upToDate : UpToDate layout source seen rendered site) (absolute : layout.Absolute)
    (here : layout.Hosts source) (saved : Saved layout changed site.disk disk)
    (otherPage : source ≠ changed) (unread : changed ∉ layout.start.lookups seen source) :
    UpToDate layout source seen rendered ⟨site.project, disk⟩ := by
  constructor
  · exact ⟨upToDate.current.dependencies, saved.read_output absolute here upToDate.current.output⟩
  · exact saved.agrees here otherPage unread upToDate.agrees

section Run

variable (absolute : layout.Absolute) (apart : ¬layout.root.Within layout.outDir)

include absolute apart

/-- All that is needed to find a page again is left when entries outside of the directory of the
output are. -/
theorem discovers_of_retains {before after : Disk} (plain : before.Plain) (also : after.Plain)
    (retains : Disk.Retains layout.Outside before after)
    (root : before.isDirectory layout.root.toPath = true)
    (discovered : layout.Discovers before layout.scanDepth.toNat layout.root source) :
    after.isDirectory layout.root.toPath = true ∧
      layout.Discovers after layout.scanDepth.toNat layout.root source := by
  refine ⟨?_, discovered.mono absolute absolute.root apart plain also retains⟩
  rw [Disk.isDirectory_toPath plain absolute.root] at root
  rw [Disk.isDirectory_toPath also absolute.root]
  have outside : layout.Outside layout.root.names := by
    rwa [Layout.Outside, ← absolute.root.within_iff absolute.outDir]
  exact ⟨root.1, (retains _ outside (by simp [root.2])).2.mpr root.2⟩

theorem Stays.save {changed : Place} {disk : Disk} (stays : Stays layout source site)
    (ready : Site.Ready layout ⟨site.project, disk⟩) (saved : Saved layout changed site.disk disk) :
    Stays layout source ⟨site.project, disk⟩ := by
  obtain ⟨root, discovered⟩ := discovers_of_retains absolute apart saved.plain ready.plain
    saved.retains stays.root stays.discovered
  refine ⟨ready, stays.known, ?_, root, discovered⟩
  exact stays.standing.imp fun _ found => saved.read_output absolute stays.hosts found

theorem Stays.buildEach {pages : List Place} (stays : Stays layout source site)
    (hosts : ∀ page ∈ pages, layout.Hosts page) :
    Stays layout source (site.buildEach (pages.map Place.toPath)).2 := by
  have leads := Site.leads_buildEach stays.ready absolute hosts
  obtain ⟨root, discovered⟩ := discovers_of_retains absolute apart stays.ready.plain
    leads.ready.plain (leads.outside absolute hosts).retains stays.root stays.discovered
  refine ⟨leads.ready, ?_, ?_, root, discovered⟩
  · rw [leads.knows, stays.known]
  · exact stays.standing.buildEach stays.ready absolute hosts stays.hosts

/-- After the first build, every page that is known has its output on the disk. -/
theorem follows_built {disk : Disk} {report : Report} (plain : disk.Plain)
    (root : disk.isDirectory layout.root.toPath = true)
    (built : layout.build disk = .ok (some report, site)) (ok : report.isOk = true)
    (known : site.project.knows source = true) : Follows layout source site ⟨disk, []⟩ := by
  obtain ⟨project, sound, knows, eq⟩ := Layout.build_eq absolute apart plain root
  have whole := Except.ok.inj (built.symm.trans eq)
  rw [Site.buildAll_eq] at whole
  obtain ⟨ended, rfl⟩ := Prod.mk.inj whole
  obtain ⟨-, rfl⟩ := Report.ofOutcomes?_eq_some.mp ended.symm
  have start : Site.Ready layout ⟨project, disk⟩ := ⟨sound, plain⟩
  have hosts := start.hosts_of_keys
  have leads := Site.leads_buildEach start absolute hosts
  have all := Report.isOk_ofOutcomes ok
  have knownBefore := known
  rw [leads.knows] at knownBefore
  have member : source ∈ project.pages.keys := Std.ExtTreeMap.mem_keys.mpr knownBefore
  have here := hosts source member
  have standing := Site.standing_of_buildEach start absolute hosts member all
  obtain ⟨rootAfter, discovered⟩ := discovers_of_retains absolute apart plain leads.ready.plain
    (leads.outside absolute hosts).retains root ((knows source).mp knownBefore)
  refine ⟨⟨leads.ready, known, standing, rootAfter, discovered⟩, plain, ?_⟩
  intro clear rendered succeeded
  exact upToDate_of_buildEach start absolute hosts here member knownBefore clear.outside succeeded
    (.inr all)

/-- Saving a file that is no page keeps to the history, and so do the builds that follow. -/
theorem follows_changed {history : History} {path : Path} {content : ByteArray} {disk : Disk}
    (follows : Follows layout source site history)
    (other : (layout.namesPage (layout.resolve path).toPath &&
      !layout.excludes (layout.resolve path).toPath) = false)
    (elsewhere : ¬(layout.resolve path).Within layout.outDir)
    (kept : site.disk.save (layout.resolve path) content = (.ok (), disk)) :
    Follows layout source (Site.notifyChange ⟨site.project, disk⟩ path).2
      (if source ∈ site.project.dependents (layout.resolve path) then ⟨disk, []⟩
        else ⟨history.seen, layout.resolve path :: history.since⟩) := by
  have stays := follows.stays
  have here := stays.hosts
  have changedAbsolute : (layout.resolve path).Absolute := absolute.root.resolve path
  have start := stays.ready.save changedAbsolute kept
  have saved := Saved.of_save changedAbsolute elsewhere stays.ready.plain kept
  have otherPage : source ≠ layout.resolve path := by
    intro same
    simp [← same, here.named, here.included] at other
  rw [Site.notifyChange_snd start other]
  generalize layout.resolve path = changed at *
  have hosts := start.hosts_of_dependents changed
  have staysSaved := stays.save absolute apart start saved
  have staysBuilt := staysSaved.buildEach absolute apart hosts
  by_cases depends : source ∈ site.project.dependents changed
  · rw [if_pos depends]
    refine ⟨staysBuilt, start.plain, fun clear rendered succeeded => ?_⟩
    exact upToDate_of_buildEach start absolute hosts here depends stays.known clear.outside
      succeeded (.inl staysSaved.standing)
  · rw [if_neg depends]
    refine ⟨staysBuilt, follows.seen, fun clear rendered succeeded => ?_⟩
    have earlier : history.Clear layout source :=
      ⟨clear.outside, fun place member => clear.unshadowed place (List.mem_cons_of_mem _ member)⟩
    have upToDate := follows.upToDate earlier rendered succeeded
    -- a file that the last build had found is a dependency, and any other one is not clear
    have unread : changed ∉ layout.start.lookups history.seen source := by
      intro looked
      have file := clear.unshadowed changed List.mem_cons_self looked
      have used := Layout.mem_dependencies_of_lookups changedAbsolute succeeded looked file
      apply depends
      exact stays.ready.sound.mem_dependents.mpr ⟨_, upToDate.current.dependencies, used⟩
    have upToDateSaved := upToDate.save absolute here saved otherPage unread
    exact upToDateSaved.buildEach start absolute hosts here follows.seen clear.outside succeeded

/-- On every site that is reached, each page that is known follows its history. -/
theorem follows_of_reached {last : Place → History} (reached : Reached layout site last)
    (known : site.project.knows source = true) : Follows layout source site (last source) := by
  induction reached with
  | built plain root built ok => exact follows_built absolute apart plain root built ok known
  | @changed site last path _ disk reached other elsewhere saved ih =>
      have ready := ready_of_reached absolute apart reached
      have start := ready.save (absolute.root.resolve path) saved
      have hosts := start.hosts_of_dependents (layout.resolve path)
      have leads := Site.leads_buildEach start absolute hosts
      rw [Site.notifyChange_snd start other, leads.knows] at known
      exact follows_changed absolute apart (ih known) other elsewhere saved

end Run

/-- On every site that is reached, each page whose last build succeeded and is clear of what was
saved since has the output that building the whole project anew writes for it, when that ends. -/
theorem Reached.converges {last : Place → History} (absolute : layout.Absolute)
    (apart : ¬layout.root.Within layout.outDir) (reached : Reached layout site last)
    (known : site.project.knows source = true) (clear : (last source).Clear layout source)
    (succeeded : layout.start.render (last source).seen source = .ok rendered)
    (ends : layout.buildEnds site.disk = true) :
    ∃ report fresh, layout.build site.disk = .ok (some report, fresh) ∧
      layout.outputPath source ∈ report.written ∧
      fresh.disk.read (layout.outputPath source) = .ok (.file rendered.content.toUTF8) ∧
      site.disk.read (layout.outputPath source) = fresh.disk.read (layout.outputPath source) := by
  have follows := follows_of_reached absolute apart reached known
  have stays := follows.stays
  have upToDate := follows.upToDate clear rendered succeeded
  obtain ⟨project, sound, knows, eq⟩ := Layout.build_eq absolute apart stays.ready.plain stays.root
  have start : Site.Ready layout ⟨project, site.disk⟩ := ⟨sound, stays.ready.plain⟩
  have again : project.knows source = true := (knows source).mpr stays.discovered
  have member : source ∈ project.pages.keys := Std.ExtTreeMap.mem_keys.mpr again
  have hosts := start.hosts_of_keys
  have steady : Site.Steady layout source rendered ⟨project, site.disk⟩ :=
    upToDate.agrees.steady absolute (hosts source member) follows.seen start.plain clear.outside
      succeeded
  have standing : Site.Standing layout source ⟨project, site.disk⟩ := stays.standing
  obtain ⟨anew, written⟩ := Site.current_of_buildEach start absolute hosts member again steady
    (.inl standing)
  rw [Site.buildAll_eq] at eq
  obtain ⟨report, ended⟩ := Layout.exists_report_of_buildEnds eq ends
  rw [ended] at eq
  obtain ⟨-, rfl⟩ := Report.ofOutcomes?_eq_some.mp ended
  refine ⟨_, _, eq, ?_, anew.output, upToDate.current.output.trans anew.output.symm⟩
  exact Report.mem_written_ofOutcomes written

/-- The layout of a project that takes up a whole disk and has its output in `/o`. -/
def Layout.whole : Layout where
  root := .ofPath ⟨"/"⟩
  outDir := .ofPath ⟨"/o"⟩
  extension := ".p"
  scanDepth := 1
  exclude := []
  dialect := {}
  room := 16

/-- The template of a page is saved, and then a file that the page has not looked for. -/
theorem Reached.converges_edited :
    let source := Place.ofPath ⟨"/i.p"⟩
    ∃ site last rendered report fresh,
      Layout.whole.run (.ofFiles [(⟨"/i.p"⟩, "<t:a/>"), (⟨"/a.html"⟩, "1")])
          [(⟨"a.html"⟩, "2"), (⟨"b.html"⟩, "3")] = some (site, last) ∧
        Layout.whole.build site.disk = .ok (some report, fresh) ∧
        site.disk.read (Layout.whole.outputPath source) =
          fresh.disk.read (Layout.whole.outputPath source) ∧
        fresh.disk.read (Layout.whole.outputPath source) =
          .ok (.file (Rendered.content rendered).toUTF8) ∧
        rendered.content = "2" := by
  intro source
  have told : ((Layout.whole.run (.ofFiles [(⟨"/i.p"⟩, "<t:a/>"), (⟨"/a.html"⟩, "1")])
      [(⟨"a.html"⟩, "2"), (⟨"b.html"⟩, "3")]).map fun (state : Site × (Place → History)) =>
        (state.1.project.knows source, decide ((state.2 source).Clear Layout.whole source),
          Layout.whole.buildEnds state.1.disk,
          (Layout.whole.start.render (state.2 source).seen source).toOption.map (·.content))) =
            some (true, true, true, some "2") := by
    decide +kernel
  rcases Option.map_eq_some_iff.mp told with ⟨⟨site, last⟩, ran, held⟩
  simp only [Prod.mk.injEq, decide_eq_true_eq, Option.map_eq_some_iff] at held
  rcases held with ⟨known, clear, ends, rendered, succeeded, content⟩
  have absolute : Layout.whole.Absolute := ⟨by decide +kernel, by decide +kernel⟩
  have apart : ¬Layout.whole.root.Within Layout.whole.outDir := by decide +kernel
  obtain ⟨report, fresh, built, -, written, same⟩ := Reached.converges absolute apart
    (Layout.reached_of_run ran) known clear (ok_of_toOption succeeded) ends
  exact ⟨site, last, rendered, report, fresh, ran, built, same, written, content⟩

/-- A page that can be built and looks for no template in the directory of the output does not have
the output that building the project anew writes for it. -/
structure Site.Stale (layout : Layout) (source : Place) (site : Site) : Prop where
  known : site.project.knows source = true
  outside : ∀ place ∈ layout.start.lookups site.disk source, ¬place.Within layout.outDir
  builds : ∃ rendered, layout.start.render site.disk source = .ok rendered
  differs : ∃ report fresh, layout.build site.disk = .ok (some report, fresh) ∧
    site.disk.read (layout.outputPath source) ≠ fresh.disk.read (layout.outputPath source)

/-- What a run tells about a page is enough to see that it is stale. -/
theorem exists_stale_of_run {layout : Layout} {disk : Disk} {changes : List (Path × String)}
    {source : Place} {old new : String} (differ : old ≠ new)
    (told : ((layout.run disk changes).map fun (state : Site × (Place → History)) =>
      (state.1.project.knows source,
        (layout.start.lookups state.1.disk source).toList.all (¬·.Within layout.outDir),
        (layout.start.render state.1.disk source).toOption.map (·.content),
        (state.1.disk.readText (layout.outputPath source)).toOption,
        (layout.build state.1.disk).toOption.bind fun built =>
          built.1.bind fun _ => (built.2.disk.readText (layout.outputPath source)).toOption)) =
        some (true, true, some new, some old, some new)) :
    ∃ site last, layout.run disk changes = some (site, last) ∧ Reached layout site last ∧
      site.Stale layout source := by
  rcases Option.map_eq_some_iff.mp told with ⟨⟨site, last⟩, ran, held⟩
  simp only [Prod.mk.injEq, List.all_eq_true, decide_eq_true_eq, Option.map_eq_some_iff,
    Option.bind_eq_some_iff, Std.ExtTreeSet.mem_toList] at held
  rcases held with ⟨known, outside, ⟨rendered, builds, -⟩, oldText, ⟨_, fresh⟩, built, told⟩
  obtain ⟨report, rfl, newText⟩ := told
  refine ⟨site, last, ran, Layout.reached_of_run ran, known, outside,
    ⟨rendered, ok_of_toOption builds⟩, report, fresh, ok_of_toOption built, fun same => differ ?_⟩
  have texts : site.disk.readText (layout.outputPath source) =
      fresh.disk.readText (layout.outputPath source) := by
    rw [Disk.readText, Disk.readText, same]
  rw [ok_of_toOption oldText, ok_of_toOption newText] at texts
  exact Except.ok.inj texts

/-- An output is stale when a file has appeared where a template was looked for before the one that
was found, when the last build has failed for a template that no build had used before, or when the
output was written over the page itself. -/
theorem Reached.exists_stale :
    let around := { Layout.whole with outDir := Layout.whole.root, extension := ".html" }
    (∃ site last,
      Layout.whole.run (.ofFiles [(⟨"/i.p"⟩, "<t:a.css/>"), (⟨"/a.css"⟩, "1")])
          [(⟨"a/css.html"⟩, "2")] = some (site, last) ∧
        Reached Layout.whole site last ∧ site.Stale Layout.whole (.ofPath ⟨"/i.p"⟩)) ∧
      (∃ site last,
        Layout.whole.run (.ofFiles [(⟨"/i.p"⟩, "<t:a/>"), (⟨"/a.html"⟩, "1"), (⟨"/b.html"⟩, "</t:c>")])
            [(⟨"a.html"⟩, "<t:b/>"), (⟨"b.html"⟩, "2")] = some (site, last) ∧
          Reached Layout.whole site last ∧ site.Stale Layout.whole (.ofPath ⟨"/i.p"⟩)) ∧
        ∃ site last,
          around.run (.ofFiles [(⟨"/i.html"⟩, "\x7b\x7bk\x7d\x7d@a=b\nc")]) [] = some (site, last) ∧
            Reached around site last ∧ site.Stale around (.ofPath ⟨"/i.html"⟩) := by
  refine ⟨?_, ?_, ?_⟩
  · apply exists_stale_of_run (by decide : "<style>\n1\n</style>" ≠ "2")
    decide +kernel
  · apply exists_stale_of_run (by decide : "1" ≠ "2")
    decide +kernel
  · apply exists_stale_of_run (by decide : "@a=b\nc" ≠ "c")
    decide +kernel

end Stencil.Project
