import Stencil.Project.Build
import Stencil.Proofs.Disk.Saving
import Stencil.Proofs.Project.Lookups
import Stencil.Proofs.Project.Search

/-!
# The pages of a project

A project only ever knows pages of its layout, each under its own place.  Making pages known and
remembering dependencies are the only changes to what it knows.
-/

namespace Stencil.Project

variable {project : Project} {layout : Layout} {source other place : Place}

theorem knows_iff : project.knows source = true ↔ ∃ page, project.pages[source]? = some page := by
  rw [knows, Std.ExtTreeMap.contains_eq_isSome_getElem?, Option.isSome_iff_exists]

/-- All pages that are known are pages of a layout, and the templates come from files. -/
structure Sound (layout : Layout) (project : Project) : Prop where
  same : project.layout = layout
  files : project.templates = .files
  pages : ∀ source page, project.pages[source]? = some page →
    page.source = source ∧ layout.Hosts source

theorem Layout.sound_start (layout : Layout) : layout.start.Sound layout :=
  ⟨rfl, rfl, fun source page found => by simp [start] at found⟩

theorem Sound.hosts (sound : project.Sound layout) (known : project.knows source = true) :
    layout.Hosts source := by
  rcases knows_iff.mp known with ⟨page, found⟩
  exact (sound.pages source page found).2

theorem Sound.render (sound : project.Sound layout) (disk : Disk) (source : Place) :
    project.render disk source = layout.start.render disk source := by
  rw [render_eq_start sound.files, sound.same]

theorem Sound.register (sound : project.Sound layout) (hosts : layout.Hosts source) :
    (project.register source).Sound layout := by
  unfold Project.register
  split
  · exact sound
  · refine ⟨sound.same, sound.files, fun other page found => ?_⟩
    dsimp only at found
    rw [Std.ExtTreeMap.getElem?_insert] at found
    split at found
    next same =>
      obtain rfl := Std.compare_eq_iff_eq.mp same
      obtain rfl := Option.some.inj found
      exact ⟨rfl, hosts⟩
    · exact sound.pages other page found

theorem knows_register : (project.register source).knows other = true ↔
    source = other ∨ project.knows other = true := by
  unfold register
  by_cases known : project.knows source = true
  · rw [if_pos known]
    constructor
    · exact .inr
    · rintro (rfl | known)
      · exact known
      · exact known
  · rw [if_neg known, knows, knows, Std.ExtTreeMap.contains_insert]
    simp

theorem registerAll_snd (project : Project) (sources : List Place) :
    (project.registerAll sources).2 = sources.foldl Project.register project := by
  have counted : ∀ count, (sources.foldl
      (fun counted source =>
        (if counted.2.knows source then counted.1 else counted.1 + 1, counted.2.register source))
      (count, project)).2 = sources.foldl Project.register project := by
    induction sources generalizing project with
    | nil => exact fun _ => rfl
    | cons source rest ih => exact fun count => ih (project.register source) _
  exact counted 0

theorem Sound.registerAll (sound : project.Sound layout) {sources : List Place}
    (hosts : ∀ source ∈ sources, layout.Hosts source) :
    (project.registerAll sources).2.Sound layout := by
  rw [registerAll_snd]
  induction sources generalizing project with
  | nil => exact sound
  | cons source rest ih =>
      apply ih (sound.register (hosts source List.mem_cons_self))
      exact fun other member => hosts other (List.mem_cons_of_mem _ member)

theorem knows_registerAll {sources : List Place} :
    (project.registerAll sources).2.knows source = true ↔
      source ∈ sources ∨ project.knows source = true := by
  rw [registerAll_snd]
  induction sources generalizing project with
  | nil => simp
  | cons first rest ih =>
      rw [List.foldl_cons, ih, knows_register, List.mem_cons]
      grind

theorem nodup_keys (project : Project) : project.pages.keys.Nodup :=
  project.pages.distinct_keys.imp fun differ same => differ (Std.compare_eq_iff_eq.mpr same)

theorem registerAll_same (project : Project) (sources : List Place) :
    (project.registerAll sources).2.layout = project.layout ∧
      (project.registerAll sources).2.templates = project.templates := by
  rw [registerAll_snd]
  induction sources generalizing project with
  | nil => exact ⟨rfl, rfl⟩
  | cons source rest ih =>
      rw [List.foldl_cons, (ih _).1, (ih _).2, register]
      split <;> exact ⟨rfl, rfl⟩

theorem getElem?_register : (project.register source).pages[other]? =
    project.pages[other]?.or (if source = other then some { source } else none) := by
  unfold register
  by_cases known : project.knows source = true
  · rw [if_pos known]
    obtain ⟨page, found⟩ := knows_iff.mp known
    split
    next same => simp [← same, found]
    · simp
  · rw [if_neg known]
    simp only [Std.ExtTreeMap.getElem?_insert, Std.compare_eq_iff_eq]
    split
    next same =>
      have missing : project.pages[other]? = none := by
        rwa [same, knows, Std.ExtTreeMap.contains_eq_isSome_getElem?, Option.not_isSome_iff_eq_none]
          at known
      simp [missing, same]
    · simp

/-- Pages that are made known are new, unless they were known before. -/
theorem getElem?_registerAll (project : Project) (sources : List Place) (place : Place) :
    (project.registerAll sources).2.pages[place]? =
      project.pages[place]?.or (if place ∈ sources then some { source := place } else none) := by
  rw [registerAll_snd]
  induction sources generalizing project with
  | nil => simp
  | cons source rest ih =>
      rw [List.foldl_cons, ih, getElem?_register, Option.or_assoc]
      by_cases own : source = place
      · simp [own]
      · simp [own, Ne.symm own]

/-- Pages are counted when they are new. -/
theorem size_registerAll (project : Project) (sources : List Place) :
    (project.registerAll sources).1 + project.pages.size =
      (project.registerAll sources).2.pages.size := by
  have counted : ∀ start : Nat × Project, (sources.foldl
      (fun counted source => (if counted.2.knows source then counted.1 else counted.1 + 1,
        counted.2.register source)) start).1 + start.2.pages.size =
      start.1 + (sources.foldl
        (fun counted source => (if counted.2.knows source then counted.1 else counted.1 + 1,
          counted.2.register source)) start).2.pages.size := by
    induction sources with
    | nil => exact fun _ => rfl
    | cons source rest ih =>
        rintro ⟨count, project⟩
        have onward := ih
          (if project.knows source then count else count + 1, project.register source)
        have size : (project.register source).pages.size + count =
            project.pages.size + if project.knows source then count else count + 1 := by
          unfold register
          by_cases known : project.knows source = true
          · rw [if_pos known, if_pos known]
          · have new : ¬project.pages.contains source = true := known
            rw [if_neg known, if_neg known]
            dsimp only
            rw [Std.ExtTreeMap.size_insert, if_neg new]
            omega
        rw [List.foldl_cons]
        dsimp only at onward ⊢
        omega
  have all := counted (0, project)
  rw [Nat.zero_add] at all
  exact all

/-- In what order pages are made known, and how often, makes no difference. -/
theorem registerAll_congr (project : Project) {sources others : List Place}
    (same : ∀ place, place ∈ sources ↔ place ∈ others) :
    project.registerAll sources = project.registerAll others := by
  have pages : (project.registerAll sources).2.pages = (project.registerAll others).2.pages := by
    apply Std.ExtTreeMap.ext_getElem?
    intro place
    simp only [getElem?_registerAll, same]
  have count := size_registerAll project sources
  have otherCount := size_registerAll project others
  have kept := registerAll_same project sources
  have otherKept := registerAll_same project others
  rw [pages] at count
  generalize project.registerAll sources = found at *
  generalize project.registerAll others = otherFound at *
  rcases found with ⟨_, _, _, _⟩
  rcases otherFound with ⟨_, _, _, _⟩
  simp_all
  omega

/-- Pages are made known one after the other, or all at once. -/
theorem registerAll_append (project : Project) (sources others : List Place) :
    project.registerAll (sources ++ others) =
      let first := project.registerAll sources
      let last := first.2.registerAll others
      (first.1 + last.1, last.2) := by
  have last : (project.registerAll (sources ++ others)).2 =
      ((project.registerAll sources).2.registerAll others).2 := by
    simp only [registerAll_snd, List.foldl_append]
  have whole := size_registerAll project (sources ++ others)
  have first := size_registerAll project sources
  have onward := size_registerAll (project.registerAll sources).2 others
  refine Prod.ext ?_ last
  rw [last] at whole
  dsimp only
  omega

/-- Pages that are known are not made known again. -/
theorem registerAll_of_known {sources : List Place}
    (known : ∀ source ∈ sources, project.knows source = true) :
    project.registerAll sources = (0, project) := by
  have still : (project.registerAll sources).2 = project := by
    rw [registerAll_snd]
    induction sources with
    | nil => rfl
    | cons source rest ih =>
        rw [List.foldl_cons, register, if_pos (known source List.mem_cons_self)]
        exact ih fun other member => known other (List.mem_cons_of_mem _ member)
  have count := size_registerAll project sources
  rw [still] at count
  refine Prod.ext ?_ still
  dsimp only
  omega

/-- The pages that a path stands for: the page there, or those that a search of the directory there
finds. -/
def Layout.standsFor (layout : Layout) (disk : Disk) (path : Path) : Except Error (List Place) :=
  let place := layout.resolve path
  let again (place : Place) := layout.resolve place.toPath
  match disk.read place.toPath with
  | .error fault => .error (.disk fault)
  | .ok .directory => (layout.scan disk (again place)).map (List.map again)
  | .ok _ => .ok [again place]

/-- A path is loaded by making known the pages that it stands for. -/
theorem loadPath_eq (project : Project) (disk : Disk) (path : Path) :
    project.loadPath disk path = (project.layout.standsFor disk path).map project.registerAll := by
  unfold loadPath Layout.standsFor
  dsimp only
  generalize project.layout.resolve path = place
  cases disk.read place.toPath with
  | error fault => rfl
  | ok entry =>
      cases entry with
      | directory =>
          dsimp only
          cases project.layout.scan disk (project.layout.resolve place.toPath) <;> rfl
      | file content => rfl
      | link target => rfl

/-- A path from an absolute root stands for absolute pages. -/
theorem Layout.absolute_of_standsFor (layout : Layout) (absolute : layout.root.Absolute) {disk : Disk}
    {path : Path} {pages : List Place} (stands : layout.standsFor disk path = .ok pages) :
    ∀ page ∈ pages, page.Absolute := by
  have all : ∀ places : List Place,
      ∀ page ∈ places.map fun place => layout.resolve place.toPath, page.Absolute := by
    intro places page member
    obtain ⟨place, -, rfl⟩ := List.mem_map.mp member
    exact absolute.resolve _
  unfold standsFor at stands
  dsimp only at stands
  generalize layout.resolve path = place at stands
  cases read : disk.read place.toPath with
  | error fault =>
      rw [read] at stands
      cases stands
  | ok entry =>
      rw [read] at stands
      cases entry with
      | directory =>
          dsimp only at stands
          cases scanned : layout.scan disk (layout.resolve place.toPath) with
          | error error =>
              rw [scanned] at stands
              cases stands
          | ok found =>
              rw [scanned] at stands
              cases stands
              exact all found
      | file content =>
          cases stands
          exact all [place]
      | link target =>
          cases stands
          exact all [place]

section Root

variable (absolute : layout.Absolute) (apart : ¬layout.root.Within layout.outDir) {disk : Disk}
  (plain : disk.Plain) (root : disk.isDirectory layout.root.toPath = true)

include absolute apart plain root

/-- The pages that a search of the root gives are made known, wherever the templates come from. -/
theorem Layout.loadPath_of_scan {pages : List Place}
    (scanned : layout.scan disk layout.root = .ok pages) (templates : Templates) :
    (∀ source, source ∈ pages ↔
        layout.Discovers disk layout.scanDepth.toNat layout.root source) ∧
      loadPath { layout, templates } disk layout.root.toPath =
        .ok (registerAll { layout, templates } pages) := by
  obtain ⟨found, also, spec⟩ := @Layout.scan_spec layout disk plain _ absolute.root root
  obtain rfl := Except.ok.inj (scanned.symm.trans also)
  refine ⟨spec, ?_⟩
  have read : disk.read layout.root.toPath = .ok .directory :=
    (Disk.read_toPath plain absolute.root _).mpr
      ((Disk.isDirectory_toPath plain absolute.root).mp root)
  have place : layout.resolve layout.root.toPath = layout.root :=
    Place.resolve_toPath _ absolute.root
  have again : pages.map (fun page => layout.resolve page.toPath) = pages := by
    refine (List.map_congr_left fun page member => ?_).trans (List.map_id pages)
    have hosts := ((spec page).mp member).hosts absolute apart
    exact Place.resolve_toPath _ hosts.absolute
  unfold loadPath
  dsimp only
  rw [place, read]
  dsimp only
  rw [place, scanned, Except.map, again]

/-- All pages below the root can be made known. -/
theorem Layout.loadPath_root (templates : Templates) :
    ∃ pages, (∀ source, source ∈ pages ↔
        layout.Discovers disk layout.scanDepth.toNat layout.root source) ∧
      loadPath { layout, templates } disk layout.root.toPath =
        .ok (registerAll { layout, templates } pages) := by
  obtain ⟨pages, scanned, -⟩ := @Layout.scan_spec layout disk plain _ absolute.root root
  exact ⟨pages, Layout.loadPath_of_scan absolute apart plain root scanned templates⟩

end Root

/-- Remembering the dependencies of a page changes nothing about the others. -/
theorem getElem?_record (dependencies : Std.ExtTreeSet Place) :
    (project.record source dependencies).pages[other]? =
      if source = other then project.pages[source]?.map fun page => { page with dependencies }
      else project.pages[other]? := by
  unfold record
  split
  next missing => split <;> simp_all
  next page found =>
    rw [Std.ExtTreeMap.getElem?_insert]
    simp [found]

@[simp]
theorem layout_record (dependencies : Std.ExtTreeSet Place) :
    (project.record source dependencies).layout = project.layout := by
  unfold record
  split <;> rfl

@[simp]
theorem templates_record (dependencies : Std.ExtTreeSet Place) :
    (project.record source dependencies).templates = project.templates := by
  unfold record
  split <;> rfl

theorem Sound.record (sound : project.Sound layout) (dependencies : Std.ExtTreeSet Place) :
    (project.record source dependencies).Sound layout := by
  refine ⟨by simp [sound.same], by simp [sound.files], fun other page found => ?_⟩
  rw [getElem?_record] at found
  split at found
  next same =>
    subst same
    rcases Option.map_eq_some_iff.mp found with ⟨page, known, rfl⟩
    exact sound.pages source page known
  · exact sound.pages other page found

theorem dependencies?_record (dependencies : Std.ExtTreeSet Place) :
    (project.record source dependencies).dependencies? other =
      if source = other then (project.dependencies? source).map fun _ => dependencies
      else project.dependencies? other := by
  unfold dependencies?
  rw [getElem?_record]
  split
  · simp [Function.comp_def]
  · rfl

theorem knows_record (dependencies : Std.ExtTreeSet Place) :
    (project.record source dependencies).knows other = project.knows other := by
  rw [knows, knows, Std.ExtTreeMap.contains_eq_isSome_getElem?,
    Std.ExtTreeMap.contains_eq_isSome_getElem?, getElem?_record]
  split
  next same =>
    subst same
    simp
  · rfl

section Dependents

variable (keyed : ∀ (key : Place) page, project.pages[key]? = some page → page.source = key)

include keyed

/-- The pages that depend on a place are those with the place among their dependencies. -/
theorem mem_dependents : source ∈ project.dependents place ↔
    ∃ dependencies, project.dependencies? source = some dependencies ∧ place ∈ dependencies := by
  unfold dependents dependencies?
  simp only [List.mem_map, List.mem_filter, Prod.exists,
    Std.ExtTreeMap.mem_toList_iff_getElem?_eq_some, Option.map_eq_some_iff]
  constructor
  · rintro ⟨key, page, ⟨found, depends⟩, rfl⟩
    refine ⟨page.dependencies, ⟨page, ?_, rfl⟩, depends⟩
    rw [keyed key page found, found]
  · rintro ⟨dependencies, ⟨page, found, rfl⟩, depends⟩
    exact ⟨source, page, ⟨found, depends⟩, keyed source page found⟩

theorem nodup_dependents (place : Place) : (project.dependents place).Nodup := by
  unfold dependents
  rw [List.Nodup, List.pairwise_map]
  refine ((Std.ExtTreeMap.distinct_keys_toList (t := project.pages)).filter _).imp_of_mem ?_
  intro first second member other differ same
  rw [List.mem_filter, Std.ExtTreeMap.mem_toList_iff_getElem?_eq_some] at member other
  rw [keyed first.1 first.2 member.1, keyed second.1 second.2 other.1] at same
  exact differ (Std.compare_eq_iff_eq.mpr same)

end Dependents

theorem Sound.mem_dependents (sound : project.Sound layout) :
    source ∈ project.dependents place ↔
      ∃ dependencies, project.dependencies? source = some dependencies ∧ place ∈ dependencies :=
  Project.mem_dependents fun key page found => (sound.pages key page found).1

end Stencil.Project
