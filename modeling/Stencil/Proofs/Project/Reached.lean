import Stencil.Proofs.Project.Building

/-!
# Sites that are reached

A project is built once and is then told of each file that is saved.  The history of a page says
from which disk its last build started, and what was saved since.  Runs that are computed give
sites that are reached.
-/

namespace Stencil.Project

/-- Make the pages below the root known, and build them all. -/
def Layout.build (layout : Layout) (disk : Disk) : Except Error (Option Report × Site) :=
  match layout.start.loadPath disk layout.root.toPath with
  | .error error => .error error
  | .ok (_, project) => .ok (Site.buildAll ⟨project, disk⟩)

/-- Whether all pages below the root, when they are built, are built to an end. -/
def Layout.buildEnds (layout : Layout) (disk : Disk) : Bool :=
  match layout.build disk with
  | .error _ => true
  | .ok (report, _) => report.isSome

/-- The disk that the last build of a page started from, and the places of the files that were saved
since then. -/
structure History where
  seen : Disk
  since : List Place

/-- The sites that are reached by building all pages and then saving files that are no pages, each
time with notice to the project.  The history of each page is kept besides. -/
inductive Reached (layout : Layout) : Site → (Place → History) → Prop where
  | built {disk : Disk} {report : Report} {site : Site} :
      disk.Plain →
      disk.isDirectory layout.root.toPath = true →
      layout.build disk = .ok (some report, site) →
      report.isOk = true →
      Reached layout site fun _ => ⟨disk, []⟩
  | changed {site : Site} {last : Place → History} {path : Path} {content : ByteArray} {disk : Disk} :
      Reached layout site last →
      (layout.namesPage (layout.resolve path).toPath &&
        !layout.excludes (layout.resolve path).toPath) = false →
      ¬(layout.resolve path).Within layout.outDir →
      site.disk.save (layout.resolve path) content = (.ok (), disk) →
      Reached layout (Site.notifyChange ⟨site.project, disk⟩ path).2 fun page =>
        if page ∈ site.project.dependents (layout.resolve path) then ⟨disk, []⟩
        else ⟨(last page).seen, layout.resolve path :: (last page).since⟩

/-- The last build of a page has looked for no template in the directory of the output, and no file
was saved since where it had looked in vain. -/
structure History.Clear (layout : Layout) (source : Place) (history : History) : Prop where
  outside : ∀ place ∈ layout.start.lookups history.seen source, ¬place.Within layout.outDir
  unshadowed : ∀ place ∈ history.since, place ∈ layout.start.lookups history.seen source →
    history.seen.isFile place.toPath = true

instance (layout : Layout) (source : Place) (history : History) :
    Decidable (history.Clear layout source) :=
  decidable_of_iff
    ((∀ place ∈ (layout.start.lookups history.seen source).toList, ¬place.Within layout.outDir) ∧
      ∀ place ∈ history.since, place ∈ layout.start.lookups history.seen source →
        history.seen.isFile place.toPath = true) <| by
    simp only [Std.ExtTreeSet.mem_toList]
    exact ⟨fun ⟨outside, unshadowed⟩ => ⟨outside, unshadowed⟩,
      fun clear => ⟨clear.outside, clear.unshadowed⟩⟩

namespace Layout

/-- Save a file that is no page, with notice to the project. -/
def change (layout : Layout) (state : Site × (Place → History)) (saved : Path × String) :
    Option (Site × (Place → History)) :=
  let (site, last) := state
  let place := layout.resolve saved.1
  if layout.namesPage place.toPath && !layout.excludes place.toPath then none
  else if place.Within layout.outDir then none
  else
    match site.disk.save place saved.2.toUTF8 with
    | (.error _, _) => none
    | (.ok _, disk) =>
        some ((Site.notifyChange ⟨site.project, disk⟩ saved.1).2, fun page =>
          if page ∈ site.project.dependents place then ⟨disk, []⟩
          else ⟨(last page).seen, place :: (last page).since⟩)

/-- Build a project, and save files one after the other. -/
def run (layout : Layout) (disk : Disk) (changes : List (Path × String)) :
    Option (Site × (Place → History)) :=
  if disk.Plain ∧ disk.isDirectory layout.root.toPath = true then
    match layout.build disk with
    | .error _ | .ok (none, _) => none
    | .ok (some report, site) =>
        if report.isOk then changes.foldlM layout.change (site, fun _ => ⟨disk, []⟩) else none
  else none

variable {layout : Layout}

theorem reached_of_change {site after : Site} {last next : Place → History} {saved : Path × String}
    (reached : Reached layout site last)
    (changed : layout.change (site, last) saved = some (after, next)) :
    Reached layout after next := by
  unfold change at changed
  dsimp only at changed
  split at changed
  · cases changed
  next other =>
    split at changed
    · cases changed
    next elsewhere =>
      split at changed
      · cases changed
      next kept =>
        obtain ⟨rfl, rfl⟩ := Prod.mk.inj (Option.some.inj changed)
        exact .changed reached (Bool.eq_false_iff.mpr other) elsewhere kept

/-- What a run ends with is reached. -/
theorem reached_of_run {disk : Disk} {changes : List (Path × String)} {site : Site}
    {last : Place → History} (ran : layout.run disk changes = some (site, last)) :
    Reached layout site last := by
  have steps : ∀ first start, Reached layout first start →
      changes.foldlM layout.change (first, start) = some (site, last) →
        Reached layout site last := by
    clear ran
    induction changes with
    | nil =>
        intro first start reached ended
        obtain ⟨rfl, rfl⟩ := Prod.mk.inj (Option.some.inj ended)
        exact reached
    | cons saved rest ih =>
        intro first start reached ended
        rw [List.foldlM_cons] at ended
        rcases Option.bind_eq_some_iff.mp ended with ⟨⟨middle, next⟩, changed, ended⟩
        exact ih middle next (reached_of_change reached changed) ended
  unfold run at ran
  split at ran
  next ready =>
    split at ran
    · cases ran
    · cases ran
    next built =>
      split at ran
      next ok => exact steps _ _ (.built ready.1 ready.2 built ok) ran
      · cases ran
  · cases ran

end Layout

variable {layout : Layout} {site : Site}

theorem Layout.exists_report_of_buildEnds {disk : Disk} {report : Option Report}
    (built : layout.build disk = .ok (report, site)) (ends : layout.buildEnds disk = true) :
    ∃ told, report = some told := by
  unfold buildEnds at ends
  split at ends
  next failed => cases failed.symm.trans built
  next told after ended =>
    obtain rfl := congrArg Prod.fst (Except.ok.inj (built.symm.trans ended))
    exact Option.isSome_iff_exists.mp ends

/-- Building a project makes exactly the pages known that are discovered below its root. -/
theorem Layout.build_eq (absolute : layout.Absolute) (apart : ¬layout.root.Within layout.outDir)
    {disk : Disk} (plain : disk.Plain) (root : disk.isDirectory layout.root.toPath = true) :
    ∃ project : Project, project.Sound layout ∧
      (∀ source, project.knows source = true ↔
        layout.Discovers disk layout.scanDepth.toNat layout.root source) ∧
      layout.build disk = .ok (Site.buildAll ⟨project, disk⟩) := by
  obtain ⟨pages, spec, loaded⟩ := Layout.loadPath_root absolute apart plain root .files
  have hosts : ∀ source ∈ pages, layout.Hosts source :=
    fun source member => ((spec source).mp member).hosts absolute apart
  refine ⟨(layout.start.registerAll pages).2, layout.sound_start.registerAll hosts, ?_, ?_⟩
  · intro source
    rw [knows_registerAll, spec]
    simp [knows, Layout.start]
  · unfold Layout.build Layout.start
    rw [loaded]

/-- All sites that are reached are free of links, and their projects know pages of the layout. -/
theorem ready_of_reached (absolute : layout.Absolute)
    (apart : ¬layout.root.Within layout.outDir) {last : Place → History}
    (reached : Reached layout site last) : site.Ready layout := by
  induction reached with
  | built plain root built _ =>
      obtain ⟨project, sound, -, eq⟩ := Layout.build_eq absolute apart plain root
      have whole := Except.ok.inj (built.symm.trans eq)
      rw [Site.buildAll_eq] at whole
      obtain ⟨-, rfl⟩ := Prod.mk.inj whole
      have start : Site.Ready layout ⟨project, _⟩ := ⟨sound, plain⟩
      exact (Site.leads_buildEach start absolute start.hosts_of_keys).ready
  | @changed _ _ path _ _ _ other _ saved ready =>
      have start := ready.save (absolute.root.resolve path) saved
      rw [Site.notifyChange_snd start other]
      exact (Site.leads_buildEach start absolute (start.hosts_of_dependents _)).ready

end Stencil.Project
