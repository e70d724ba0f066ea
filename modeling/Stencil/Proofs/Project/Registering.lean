import Stencil.Proofs.Project.Descents
import Stencil.Proofs.Project.Settling
import Stencil.Proofs.Project.Records

/-!
# Making the pages at paths known

A list of paths is loaded by making known all the pages that they stand for, each of them once,
however often and in whatever spelling the paths lead to it.  When one of the paths stands for
nothing, the paths before it have been loaded and no more.
-/

namespace Stencil.Project

namespace Layout

variable {layout : Layout} {disk : Disk} {path : Path} {page directory : Place} {pages : List Place}

/-- A path leads to a file that is a page, or to a directory in which a search finds the page. -/
inductive Brings (layout : Layout) (disk : Disk) (path : Path) : Place → Prop where
  | file {entry : Disk.Entry} : disk.read (layout.resolve path).toPath = .ok entry →
      entry ≠ .directory → Brings layout disk path (layout.resolve path)
  | found {pages : List Place} {page : Place} :
      disk.read (layout.resolve path).toPath = .ok .directory →
      layout.scan disk (layout.resolve path) = .ok pages → page ∈ pages →
      Brings layout disk path page

/-- What a search finds in an absolute directory is absolute. -/
theorem absolute_scan (absolute : directory.Absolute)
    (read : disk.read directory.toPath = .ok .directory)
    (scanned : layout.scan disk directory = .ok pages) (member : page ∈ pages) : page.Absolute := by
  have found : disk.isDirectory directory.toPath = true := by rw [Disk.isDirectory, read]
  have told : layout.Told disk layout.scanDepth.toNat [] directory
      (layout.search disk disk.names layout.scanDepth.toNat [] directory) :=
    told_search (fun _ => .refl _) found
  unfold scan at scanned
  cases searched : layout.search disk disk.names layout.scanDepth.toNat [] directory with
  | error error =>
      rw [searched] at scanned
      cases scanned
  | ok all =>
      rw [searched] at told scanned
      cases scanned
      cases told with
      | pages _ shown =>
          obtain ⟨inside, name, -, -, -, -, rfl, -⟩ := (shown page).mp (List.mem_mergeSort.mp member)
          exact absolute

section

variable (absolute : layout.root.Absolute)

include absolute

theorem standsFor_file {entry : Disk.Entry}
    (read : disk.read (layout.resolve path).toPath = .ok entry) (other : entry ≠ .directory) :
    layout.standsFor disk path = .ok [layout.resolve path] := by
  have own : layout.resolve (layout.resolve path).toPath = layout.resolve path :=
    Place.resolve_toPath _ (absolute.resolve path)
  unfold standsFor
  dsimp only
  rw [read, own]
  cases entry with
  | directory => exact absurd rfl other
  | file content => rfl
  | link target => rfl

theorem standsFor_directory (read : disk.read (layout.resolve path).toPath = .ok .directory) :
    layout.standsFor disk path = layout.scan disk (layout.resolve path) := by
  have own : layout.resolve (layout.resolve path).toPath = layout.resolve path :=
    Place.resolve_toPath _ (absolute.resolve path)
  unfold standsFor
  dsimp only
  rw [read, own]
  dsimp only
  cases scanned : layout.scan disk (layout.resolve path) with
  | error error => rfl
  | ok pages =>
      refine congrArg Except.ok ((List.map_congr_left fun page member => ?_).trans (List.map_id pages))
      exact Place.resolve_toPath _ (absolute_scan (absolute.resolve path) read scanned member)

/-- From an absolute root, a path stands for the pages that it brings. -/
theorem mem_standsFor (stands : layout.standsFor disk path = .ok pages) :
    page ∈ pages ↔ layout.Brings disk path page := by
  cases read : disk.read (layout.resolve path).toPath with
  | error fault =>
      unfold standsFor at stands
      dsimp only at stands
      rw [read] at stands
      cases stands
  | ok entry =>
      by_cases other : entry = .directory
      · subst other
        rw [standsFor_directory absolute read] at stands
        constructor
        · exact .found read stands
        · rintro (⟨file, apart⟩ | ⟨-, also, member⟩)
          · rw [read] at file
            exact absurd (Except.ok.inj file).symm apart
          · obtain rfl := Except.ok.inj (stands.symm.trans also)
            exact member
      · rw [standsFor_file absolute read other] at stands
        obtain rfl := Except.ok.inj stands
        rw [List.mem_singleton]
        constructor
        · rintro rfl
          exact .file read other
        · rintro (_ | ⟨directory, -, -⟩)
          · rfl
          · rw [read] at directory
            exact absurd (Except.ok.inj directory) other

end

end Layout

variable {project after : Project} {disk : Disk} {paths : List Path} {count : Nat}

/-- The pages that paths stand for, one path after the other. -/
def Layout.pagesOf (layout : Layout) (disk : Disk) (paths : List Path) : List Place :=
  paths.flatMap fun path => (layout.standsFor disk path).toOption.getD []

/-- Paths that stand for pages are loaded by making them known. -/
theorem loadPaths_eq
    (stand : ∀ path ∈ paths, ∃ pages, project.layout.standsFor disk path = .ok pages) :
    project.loadPaths disk paths =
      let loaded := project.registerAll (project.layout.pagesOf disk paths)
      (.ok loaded.1, loaded.2) := by
  induction paths generalizing project with
  | nil => rfl
  | cons path rest ih =>
      obtain ⟨pages, stands⟩ := stand path List.mem_cons_self
      have layout := (registerAll_same project pages).1
      have onward := @ih (project.registerAll pages).2 fun other member => by
        rw [layout]
        exact stand other (List.mem_cons_of_mem _ member)
      have all : project.layout.pagesOf disk (path :: rest) =
          pages ++ project.layout.pagesOf disk rest := by
        rw [Layout.pagesOf, List.flatMap_cons, stands]
        rfl
      rw [layout] at onward
      rw [loadPaths_cons, loadPath_eq, stands, Except.map, all, registerAll_append]
      dsimp only
      rw [onward]
      rfl

/-- Paths that have been loaded stand for pages. -/
theorem standsFor_of_loadPaths (loaded : project.loadPaths disk paths = (.ok count, after)) :
    ∀ path ∈ paths, ∃ pages, project.layout.standsFor disk path = .ok pages := by
  induction paths generalizing project count with
  | nil => nofun
  | cons first rest ih =>
      rw [loadPaths_cons, loadPath_eq] at loaded
      cases stands : project.layout.standsFor disk first with
      | error error =>
          rw [stands] at loaded
          cases loaded
      | ok pages =>
          rw [stands, Except.map] at loaded
          dsimp only at loaded
          have layout := (registerAll_same project pages).1
          rcases onward : (project.registerAll pages).2.loadPaths disk rest with ⟨error | more, last⟩
          · rw [onward] at loaded
            cases loaded
          · rw [onward] at loaded
            obtain rfl := (Prod.mk.inj loaded).2
            have others := ih onward
            rw [layout] at others
            intro path member
            rcases List.mem_cons.mp member with rfl | member
            · exact ⟨pages, stands⟩
            · exact others path member

/-- When paths cannot be loaded, one of them cannot be, and those before it have been. -/
theorem loadPaths_error {error : Error}
    (failed : project.loadPaths disk paths = (.error error, after)) :
    ∃ earlier path later count, paths = earlier ++ path :: later ∧
      project.loadPaths disk earlier = (.ok count, after) ∧
        after.loadPath disk path = .error error := by
  induction paths generalizing project with
  | nil => cases failed
  | cons first rest ih =>
      rw [loadPaths_cons] at failed
      cases loaded : project.loadPath disk first with
      | error fault =>
          rw [loaded] at failed
          cases failed
          exact ⟨[], first, rest, 0, rfl, rfl, loaded⟩
      | ok found =>
          rw [loaded] at failed
          dsimp only at failed
          rcases onward : found.2.loadPaths disk rest with ⟨fault | more, last⟩
          · rw [onward] at failed
            obtain ⟨same, rfl⟩ := Prod.mk.inj failed
            obtain rfl := Except.error.inj same
            obtain ⟨earlier, path, later, count, rfl, before, here⟩ := ih onward
            refine ⟨first :: earlier, path, later, found.1 + count, rfl, ?_, here⟩
            rw [loadPaths_cons, loaded]
            dsimp only
            rw [before]
            rfl
          · rw [onward] at failed
            cases failed

/-- What has come of loading paths: the pages that they bring are known, and were counted when they
were new. -/
structure Registers (disk : Disk) (paths : List Path) (before : Project) (count : Nat)
    (after : Project) : Prop where
  layout : after.layout = before.layout
  templates : after.templates = before.templates
  counted : count + before.pages.size = after.pages.size
  known : ∀ page, after.knows page = true ↔
    before.knows page = true ∨ ∃ path ∈ paths, before.layout.Brings disk path page
  /-- What is remembered of a page stays, and nothing is remembered of new pages. -/
  grows : before.Grows after
  again : after.loadPaths disk paths = (.ok 0, after)

theorem registers_of_loadPaths (absolute : project.layout.root.Absolute)
    (loaded : project.loadPaths disk paths = (.ok count, after)) :
    Registers disk paths project count after := by
  have stand := standsFor_of_loadPaths loaded
  rw [loadPaths_eq stand] at loaded
  have listed : ∀ page, page ∈ project.layout.pagesOf disk paths ↔
      ∃ path ∈ paths, project.layout.Brings disk path page := by
    intro page
    rw [Layout.pagesOf, List.mem_flatMap]
    refine exists_congr fun path => and_congr_right fun member => ?_
    obtain ⟨pages, stands⟩ := stand path member
    rw [stands]
    exact Layout.mem_standsFor absolute stands
  obtain ⟨layout, templates⟩ := registerAll_same project (project.layout.pagesOf disk paths)
  have size := size_registerAll project (project.layout.pagesOf disk paths)
  have grows := Grows.registerAll project (project.layout.pagesOf disk paths)
  have known := fun page => @knows_registerAll project page (project.layout.pagesOf disk paths)
  generalize project.registerAll (project.layout.pagesOf disk paths) = found at *
  obtain ⟨counted, rfl⟩ := Prod.mk.inj loaded
  obtain rfl := Except.ok.inj counted
  refine ⟨layout, templates, size, fun page => ?_, grows, ?_⟩
  · rw [known, listed, or_comm]
  · rw [← layout] at stand
    rw [loadPaths_eq stand, layout, registerAll_of_known fun page member => (known page).mpr (.inl member)]

/-- Either all the pages that paths bring are known, or a path cannot be loaded, and those are known
that the paths before it bring. -/
theorem loadPaths_registers (absolute : project.layout.root.Absolute) (disk : Disk)
    (paths : List Path) :
    (∃ count after, project.loadPaths disk paths = (.ok count, after) ∧
        Registers disk paths project count after) ∨
      ∃ error earlier path later count after, paths = earlier ++ path :: later ∧
        project.loadPaths disk paths = (.error error, after) ∧
          after.loadPath disk path = .error error ∧
            project.loadPaths disk earlier = (.ok count, after) ∧
              Registers disk earlier project count after := by
  rcases loaded : project.loadPaths disk paths with ⟨error | count, after⟩
  · obtain ⟨earlier, path, later, count, rfl, before, failed⟩ := loadPaths_error loaded
    exact .inr ⟨error, earlier, path, later, count, after, rfl, rfl, failed, before,
      registers_of_loadPaths absolute before⟩
  · exact .inl ⟨count, after, rfl, registers_of_loadPaths absolute loaded⟩

section

-- The project is not to be written out where the outcome of loading is taken apart.
attribute [local irreducible] Batch.small

/-- A directory with one new page brings that page once, and paths of which one leads nowhere are
loaded up to there. -/
theorem loadPaths_registers_overlapping :
    Batch.small.project.layout.root.Absolute ∧
      (∃ after, Registers Batch.small.disk [⟨"d/.."⟩, ⟨"/r//j.p"⟩] Batch.small.project 1 after) ∧
        ∃ earlier path later count after, [⟨"j.p"⟩, ⟨"x"⟩, ⟨"."⟩] = earlier ++ path :: later ∧
          (Batch.small.project.loadPaths Batch.small.disk [⟨"j.p"⟩, ⟨"x"⟩, ⟨"."⟩]).2 = after ∧
            Registers Batch.small.disk earlier Batch.small.project count after := by
  have absolute : Batch.small.project.layout.root.Absolute := by decide +kernel
  refine ⟨absolute, ?_, ?_⟩
  · let pages : List Place := [.ofPath ⟨"/r/d/k.p"⟩, .ofPath ⟨"/r/i.p"⟩, .ofPath ⟨"/r/j.p"⟩]
    have directory : Batch.small.project.layout.standsFor Batch.small.disk ⟨"d/.."⟩ = .ok pages := by
      rw [Layout.standsFor_directory absolute (ok_of_toOption (by decide +kernel))]
      exact Layout.scan_of_sorted (ok_of_toOption (by decide +kernel)) (by decide +kernel)
    have file : Batch.small.project.layout.standsFor Batch.small.disk ⟨"/r//j.p"⟩ =
        .ok [.ofPath ⟨"/r/j.p"⟩] :=
      ok_of_toOption (by decide +kernel)
    have loaded := loadPaths_eq (List.forall_mem_cons.mpr
      ⟨Exists.intro _ directory, List.forall_mem_singleton.mpr (Exists.intro _ file)⟩)
    have all : Batch.small.project.layout.pagesOf Batch.small.disk [⟨"d/.."⟩, ⟨"/r//j.p"⟩] =
        pages ++ [.ofPath ⟨"/r/j.p"⟩] := by
      rw [Layout.pagesOf, List.flatMap_cons, List.flatMap_singleton, directory, file]
      rfl
    have once : (Batch.small.project.registerAll (pages ++ [.ofPath ⟨"/r/j.p"⟩])).1 = 1 := by
      decide +kernel
    rw [all] at loaded
    dsimp only at loaded
    rw [once] at loaded
    rcases loadPaths_registers absolute Batch.small.disk [⟨"d/.."⟩, ⟨"/r//j.p"⟩] with
      ⟨count, after, also, registers⟩ | ⟨error, -, -, -, -, after, -, failed, -⟩
    · obtain ⟨same, -⟩ := Prod.mk.inj (loaded.symm.trans also)
      obtain rfl := Except.ok.inj same
      exact ⟨after, registers⟩
    · rw [loaded] at failed
      cases failed
  · rcases loadPaths_registers absolute Batch.small.disk [⟨"j.p"⟩, ⟨"x"⟩, ⟨"."⟩] with
      ⟨count, after, loaded, -⟩ |
        ⟨error, earlier, path, later, count, after, split, failed, -, -, registers⟩
    · have lost : (Batch.small.project.loadPaths Batch.small.disk
          [⟨"j.p"⟩, ⟨"x"⟩, ⟨"."⟩]).1.toOption = none := by
        decide +kernel
      rw [loaded] at lost
      cases lost
    · exact ⟨earlier, path, later, count, after, split, congrArg Prod.snd failed, registers⟩

end

end Stencil.Project
