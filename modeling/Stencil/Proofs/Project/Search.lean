import Stencil.Proofs.Disk.Saving
import Stencil.Proofs.Project.Descents
import Stencil.Proofs.Project.Output

/-!
# What a search discovers

On a disk without links a search never fails, and what it discovers can be told entry by entry.
New directories and other changes of files leave everything to be discovered that was there.
-/

namespace Stencil.Project.Layout

variable {layout : Layout} {disk : Disk}

/-- A page is discovered in a directory, or in one of the given number of levels below it. -/
inductive Discovers (layout : Layout) (disk : Disk) : Nat → Place → Place → Prop where
  | page {levels : Nat} {directory : Place} {name : Name} :
      name ∈ disk.names directory.names →
      layout.passesOver disk (directory.child name) name = false →
      disk.isDirectory (directory.child name).toPath = false →
      layout.namesPage (directory.child name).toPath = true →
      Discovers layout disk levels directory (directory.child name)
  | inside {levels : Nat} {directory page : Place} {name : Name} :
      name ∈ disk.names directory.names →
      layout.passesOver disk (directory.child name) name = false →
      disk.isDirectory (directory.child name).toPath = true →
      Discovers layout disk levels (directory.child name) page →
      Discovers layout disk (levels + 1) directory page

theorem discovers_iff {levels : Nat} {directory page : Place} :
    layout.Discovers disk levels directory page ↔ ∃ name ∈ disk.names directory.names,
      layout.passesOver disk (directory.child name) name = false ∧
        if disk.isDirectory (directory.child name).toPath then
          ∃ fewer, levels = fewer + 1 ∧ layout.Discovers disk fewer (directory.child name) page
        else layout.namesPage (directory.child name).toPath ∧ page = directory.child name := by
  constructor
  · intro discovered
    cases discovered with
    | @page _ _ name member passed file named =>
        exact ⟨name, member, passed, by simp [file, named]⟩
    | @inside fewer _ _ name member passed inner discovered =>
        exact ⟨name, member, passed, by simp [inner, discovered]⟩
  · rintro ⟨name, member, passed, found⟩
    split at found
    next inner =>
      rcases found with ⟨fewer, rfl, discovered⟩
      exact .inside member passed inner discovered
    next file =>
      rcases found with ⟨named, rfl⟩
      exact .page member passed (Bool.eq_false_iff.mpr file) named

section Plain

variable (plain : disk.Plain) {directory : Place} (absolute : directory.Absolute)
  (found : disk.isDirectory directory.toPath = true)

include plain absolute found

/-- A directory is found where its names say. -/
theorem find_directory : disk.find directory.toPath = .ok directory.names := by
  obtain ⟨reachable, held⟩ := (Disk.isDirectory_toPath plain absolute).mp found
  exact (Disk.find_toPath plain absolute _).mpr ⟨rfl, reachable, by rw [held]; rfl⟩

/-- What a search shows is to be discovered. -/
theorem shows_iff_discovers {levels : Nat} {page : Place} :
    layout.Shows disk levels directory page ↔ layout.Discovers disk levels directory page := by
  induction levels generalizing directory with
  | zero =>
      rw [shows_iff (find_directory plain absolute found), discovers_iff]
      simp only [ShowsAt, reduceCtorEq, false_and, exists_false]
  | succ levels ih =>
      rw [shows_iff (find_directory plain absolute found), discovers_iff]
      refine exists_congr fun name => and_congr_right fun _ => and_congr_right fun _ => ?_
      split
      next inner => simp only [Nat.succ_inj, exists_eq_left', ih (absolute.child name) inner]
      next => rfl

/-- A search gives exactly what is to be discovered. -/
theorem search_spec (levels : Nat) :
    ∃ pages, layout.search disk disk.names levels [] directory = .ok pages ∧
      ∀ page, page ∈ pages ↔ layout.Discovers disk levels directory page := by
  have told : layout.Told disk levels [] directory
      (layout.search disk disk.names levels [] directory) := told_search (fun _ => .refl _) found
  generalize layout.search disk disk.names levels [] directory = outcome at told
  cases told with
  | cycle enters noticed =>
      refine absurd (enters.returns_of_noticed found noticed)
        (@not_returns _ _ _ directory.names fun count => ?_)
      exact find_directory plain absolute ((enters.take count).isDirectory found)
  | @pages pages _ shown =>
      exact ⟨pages, rfl, fun page => by rw [shown, shows_iff_discovers plain absolute found]⟩

end Plain

/-- The pages below a directory are those that are discovered there. -/
theorem scan_spec (plain : disk.Plain) {directory : Place} (absolute : directory.Absolute)
    (found : disk.isDirectory directory.toPath = true) :
    ∃ pages, layout.scan disk directory = .ok pages ∧
      ∀ page, page ∈ pages ↔ layout.Discovers disk layout.scanDepth.toNat directory page := by
  obtain ⟨pages, ran, spec⟩ := search_spec plain absolute found layout.scanDepth.toNat
  refine ⟨pages.mergeSort comesFirst, by rw [scan, ran]; rfl, fun page => ?_⟩
  rw [List.mem_mergeSort, spec]

/-- What a search gives in order need not be sorted. -/
theorem scan_of_sorted {directory : Place} {pages : List Place}
    (searched : layout.search disk disk.names layout.scanDepth.toNat [] directory = .ok pages)
    (sorted : pages.Pairwise (comesFirst · ·)) : layout.scan disk directory = .ok pages := by
  rw [scan, searched, Except.map, List.mergeSort_of_pairwise sorted]

namespace Discovers

variable {levels : Nat} {directory page : Place}

/-- What is discovered in a directory lies below it. -/
theorem names_eq (discovered : layout.Discovers disk levels directory page) :
    ∃ inside, inside ≠ [] ∧ page.names = directory.names ++ inside := by
  induction discovered with
  | @page _ directory name => exact ⟨[name], nofun, rfl⟩
  | @inside _ directory _ name _ _ _ _ ih =>
      obtain ⟨inside, -, names⟩ := ih
      exact ⟨name :: inside, nofun, by simp [names, Place.child]⟩

/-- No way into the directory of the output is searched. -/
theorem not_within_child {name : Name} (layoutAbsolute : layout.Absolute)
    (absolute : directory.Absolute) (apart : ¬directory.Within layout.outDir)
    (passed : layout.passesOver disk (directory.child name) name = false) :
    ¬(directory.child name).Within layout.outDir := by
  have other : directory.child name ≠ layout.outDir := by
    intro same
    simp [passesOver, same] at passed
  rw [(absolute.child name).within_iff layoutAbsolute.outDir]
  rw [absolute.within_iff layoutAbsolute.outDir] at apart
  intro inside
  rcases List.prefix_concat_iff.mp inside with whole | above
  · exact other ((absolute.child name).ext layoutAbsolute.outDir whole.symm)
  · exact apart above

/-- A page that is discovered lies in the directory and is one of the layout. -/
theorem hosts_below (discovered : layout.Discovers disk levels directory page)
    (layoutAbsolute : layout.Absolute) (absolute : directory.Absolute)
    (apart : ¬directory.Within layout.outDir) :
    page.Absolute ∧ (∃ inside, inside ≠ [] ∧ page.names = directory.names ++ inside) ∧
      layout.namesPage page.toPath = true ∧ layout.excludes page.toPath = false ∧
        ¬page.Within layout.outDir := by
  induction discovered with
  | @page _ directory name _ passed _ named =>
      refine ⟨absolute.child name, ⟨[name], nofun, rfl⟩, named, ?_,
        not_within_child layoutAbsolute absolute apart passed⟩
      unfold passesOver at passed
      simp only [Bool.or_eq_false_iff] at passed
      exact passed.2
  | @inside _ directory _ name _ passed _ _ ih =>
      obtain ⟨pageAbsolute, ⟨inside, _, names⟩, rest⟩ := ih (absolute.child name)
        (not_within_child layoutAbsolute absolute apart passed)
      refine ⟨pageAbsolute, ⟨name :: inside, nofun, ?_⟩, rest⟩
      rw [names, Place.child, List.append_assoc, List.singleton_append]

/-- The pages that are discovered below the root are pages of the layout. -/
theorem hosts (discovered : layout.Discovers disk levels layout.root page)
    (absolute : layout.Absolute) (apart : ¬layout.root.Within layout.outDir) :
    layout.Hosts page := by
  obtain ⟨pageAbsolute, below, named, included, outside⟩ :=
    discovered.hosts_below absolute absolute.root apart
  exact ⟨pageAbsolute, below, named, included, outside⟩

/-- A page is still discovered when all entries outside of the directory of the output are left. -/
theorem mono {after : Disk} (discovered : layout.Discovers disk levels directory page)
    (layoutAbsolute : layout.Absolute) (absolute : directory.Absolute)
    (apart : ¬directory.Within layout.outDir) (plain : disk.Plain) (also : after.Plain)
    (retains : Disk.Retains layout.Outside disk after) :
    layout.Discovers after levels directory page := by
  have kept : ∀ {directory : Place} {name : Name}, directory.Absolute →
      ¬directory.Within layout.outDir → name ∈ disk.names directory.names →
        layout.passesOver disk (directory.child name) name = false →
          name ∈ after.names directory.names ∧
            after.isDirectory (directory.child name).toPath =
                disk.isDirectory (directory.child name).toPath ∧
              layout.passesOver after (directory.child name) name = false := by
    intro directory name absolute apart member passed
    have outside := not_within_child layoutAbsolute absolute apart passed
    rw [(absolute.child name).within_iff layoutAbsolute.outDir] at outside
    obtain ⟨there, kind⟩ := retains (directory.child name).names outside (Disk.mem_names.mp member)
    have same : after.isDirectory (directory.child name).toPath =
        disk.isDirectory (directory.child name).toPath := by
      rw [Bool.eq_iff_iff, Disk.isDirectory_toPath plain (absolute.child name),
        Disk.isDirectory_toPath also (absolute.child name), kind]
    refine ⟨Disk.mem_names.mpr there, same, ?_⟩
    unfold passesOver at passed ⊢
    rw [same, passed]
  induction discovered with
  | page member passed file named =>
      obtain ⟨member, same, passed⟩ := kept absolute apart member passed
      exact .page member passed (same.trans file) named
  | @inside _ directory _ name member passed inner _ ih =>
      have outside := not_within_child layoutAbsolute absolute apart passed
      obtain ⟨member, same, passed⟩ := kept absolute apart member passed
      exact .inside member passed (same.trans inner) (ih (absolute.child name) outside)

end Discovers

end Stencil.Project.Layout
