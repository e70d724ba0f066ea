import Stencil.Proofs.Project.Records

/-!
# Notices and searches

A notice of a change makes a file known as a page when its path is that of a page, wherever the file
lies.  A search makes the same test of the files in the directories that it visits, and there are
directories that it does not visit.  So a search lists what notices make known, as far as it comes.
-/

namespace Stencil.Project

namespace Layout

variable {layout : Layout} {disk : Disk}

/-- A search does not pass over a directory for what its path says. -/
structure Searches (layout : Layout) (directory : Place) : Prop where
  shown : directory.fileName?.all (!isSkipped ·.text) = true
  other : directory ≠ layout.outDir
  included : layout.excludes directory.toPath = false

instance (layout : Layout) (directory : Place) : Decidable (layout.Searches directory) :=
  decidable_of_iff
    (directory.fileName?.all (!isSkipped ·.text) = true ∧ directory ≠ layout.outDir ∧
      layout.excludes directory.toPath = false)
    ⟨fun ⟨shown, other, included⟩ => ⟨shown, other, included⟩,
      fun searches => ⟨searches.shown, searches.other, searches.included⟩⟩

/-- A search of the root comes to a place: not too many directories are on the way there, all of them
are searched, and the directory of the output is not at the place. -/
structure Visits (layout : Layout) (page : Place) : Prop where
  other : page ≠ layout.outDir
  shallow : page.names.length ≤ layout.root.names.length + layout.scanDepth.toNat + 1
  searches : ∀ count < page.names.length, layout.root.names.length < count →
    layout.Searches ⟨.root, page.names.take count⟩

instance (layout : Layout) (page : Place) : Decidable (layout.Visits page) :=
  decidable_of_iff
    (page ≠ layout.outDir ∧
      page.names.length ≤ layout.root.names.length + layout.scanDepth.toNat + 1 ∧
        ∀ count < page.names.length, layout.root.names.length < count →
          layout.Searches ⟨.root, page.names.take count⟩)
    ⟨fun ⟨other, shallow, searches⟩ => ⟨other, shallow, searches⟩,
      fun visits => ⟨visits.other, visits.shallow, visits.searches⟩⟩

/-- An entry is passed over for its path, or for its name when it is a directory. -/
theorem passesOver_child (directory : Place) (name : Name) :
    layout.passesOver disk (directory.child name) name = false ↔
      (disk.isDirectory (directory.child name).toPath = true → isSkipped name.text = false) ∧
        directory.child name ≠ layout.outDir ∧
          layout.excludes (directory.child name).toPath = false := by
  unfold passesOver
  cases disk.isDirectory (directory.child name).toPath <;> simp [and_assoc]

/-- A directory is passed over unless it is to be searched. -/
theorem passesOver_child_iff {directory : Place} {name : Name}
    (inner : disk.isDirectory (directory.child name).toPath = true) :
    layout.passesOver disk (directory.child name) name = false ↔
      layout.Searches (directory.child name) := by
  rw [passesOver_child]
  constructor
  · rintro ⟨shown, other, included⟩
    exact ⟨by simp [Place.fileName?, Place.child, shown inner], other, included⟩
  · rintro ⟨shown, other, included⟩
    exact ⟨fun _ => by simpa [Place.fileName?, Place.child] using shown, other, included⟩

theorem passesOver_directory {directory : Place} {name : Name} (absolute : directory.Absolute)
    (inner : disk.isDirectory (directory.child name).toPath = true) :
    layout.passesOver disk (directory.child name) name = false ↔
      layout.Searches ⟨.root, directory.names ++ [name]⟩ := by
  have place : directory.child name = ⟨.root, directory.names ++ [name]⟩ :=
    (absolute.child name).ext (Place.absolute_root _) rfl
  rw [passesOver_child_iff inner, place]

/-- The directories on the way into a directory are the directory and those on the way from there. -/
theorem searches_cons (directory : Place) (name : Name) {rest : List Name} (more : rest ≠ []) :
    (∀ count < (name :: rest).length, 0 < count →
        layout.Searches ⟨.root, directory.names ++ (name :: rest).take count⟩) ↔
      layout.Searches ⟨.root, directory.names ++ [name]⟩ ∧
        ∀ count < rest.length, 0 < count →
          layout.Searches ⟨.root, (directory.child name).names ++ rest.take count⟩ := by
  have onward : ∀ count, directory.names ++ (name :: rest).take (count + 1) =
      (directory.child name).names ++ rest.take count := by
    intro count
    simp [Place.child]
  have positive := List.length_pos_iff.mpr more
  constructor
  · intro all
    refine ⟨by simpa using all 1 (by simpa using positive) Nat.one_pos, fun count fewer _ => ?_⟩
    rw [← onward]
    exact all (count + 1) (by simpa using fewer) count.succ_pos
  · rintro ⟨first, further⟩ (_ | _ | count) fewer some
    · cases some
    · simpa using first
    · rw [onward]
      exact further (count + 1) (by simpa using fewer) count.succ_pos

section Files

variable (plain : disk.Plain) {levels : Nat} {directory page : Place} {name : Name}

include plain

/-- There is a directory above every file. -/
theorem isDirectory_above {inside : List Name} (absolute : directory.Absolute) (below : inside ≠ [])
    (pageAbsolute : page.Absolute) (names : page.names = directory.names ++ inside)
    (file : disk.isFile page.toPath = true) : disk.isDirectory directory.toPath = true := by
  obtain ⟨reachable, content, held⟩ := (Disk.isFile_toPath plain pageAbsolute).mp file
  obtain rfl := pageAbsolute.ext (Place.absolute_root _) names
  rcases directory with ⟨anchor, outer⟩
  cases absolute
  exact (Disk.isDirectory_toPath plain (Place.absolute_root _)).mpr
    ⟨Disk.reachable_above reachable (List.prefix_append _ inside),
      Disk.get?_of_append below held⟩

/-- A file that lies below an entry of a directory is discovered by way of that entry. -/
theorem discovers_by {inside : List Name} (pageAbsolute : page.Absolute)
    (names : page.names = directory.names ++ name :: inside)
    (file : disk.isFile page.toPath = true) :
    layout.Discovers disk levels directory page ↔
      layout.passesOver disk (directory.child name) name = false ∧
        if disk.isDirectory (directory.child name).toPath then
          ∃ fewer, levels = fewer + 1 ∧ layout.Discovers disk fewer (directory.child name) page
        else layout.namesPage (directory.child name).toPath ∧ page = directory.child name := by
  obtain ⟨-, content, held⟩ := (Disk.isFile_toPath plain pageAbsolute).mp file
  have member : name ∈ disk.names directory.names := by
    rw [names, List.append_cons] at held
    exact Disk.mem_names.mpr (Disk.isSome_of_append (Option.isSome_of_mem held))
  rw [discovers_iff]
  constructor
  · rintro ⟨other, -, passed, found⟩
    -- the entry is told from the names of the page
    have same : other = name := by
      have whole : ∃ rest, page.names = (directory.child other).names ++ rest := by
        split at found
        · obtain ⟨fewer, -, deeper⟩ := found
          obtain ⟨rest, -, whole⟩ := deeper.names_eq
          exact ⟨rest, whole⟩
        · exact ⟨[], by rw [List.append_nil, found.2]⟩
      obtain ⟨rest, whole⟩ := whole
      rw [names, Place.child, List.append_assoc] at whole
      exact (List.cons.inj (List.append_cancel_left whole)).1.symm
    subst same
    exact ⟨passed, found⟩
  · rintro ⟨passed, found⟩
    exact ⟨name, member, passed, found⟩

/-- A file in a directory is discovered for what its path says. -/
theorem discovers_child (absolute : directory.Absolute)
    (file : disk.isFile (directory.child name).toPath = true) :
    layout.Discovers disk levels directory (directory.child name) ↔
      (layout.namesPage (directory.child name).toPath = true ∧
        layout.excludes (directory.child name).toPath = false) ∧
          directory.child name ≠ layout.outDir := by
  obtain ⟨-, content, held⟩ := (Disk.isFile_toPath plain (absolute.child name)).mp file
  have outer : disk.isDirectory (directory.child name).toPath = false := by
    rw [← Bool.not_eq_true, Disk.isDirectory_toPath plain (absolute.child name), held]
    simp
  rw [discovers_by plain (absolute.child name) rfl file, passesOver_child, outer]
  simp only [Bool.false_eq_true, if_false, false_implies, true_and, and_true]
  exact ⟨fun ⟨⟨other, included⟩, named⟩ => ⟨⟨named, included⟩, other⟩,
    fun ⟨⟨named, included⟩, other⟩ => ⟨⟨other, included⟩, named⟩⟩

/-- A file is discovered in a directory when it is one of the layout and the search comes to it. -/
theorem discovers_file {inside : List Name} (absolute : directory.Absolute) (below : inside ≠ [])
    (pageAbsolute : page.Absolute) (names : page.names = directory.names ++ inside)
    (file : disk.isFile page.toPath = true) :
    layout.Discovers disk levels directory page ↔
      (layout.namesPage page.toPath = true ∧ layout.excludes page.toPath = false) ∧
        page ≠ layout.outDir ∧ inside.length ≤ levels + 1 ∧
          ∀ count < inside.length, 0 < count →
            layout.Searches ⟨.root, directory.names ++ inside.take count⟩ := by
  induction inside generalizing levels directory with
  | nil => exact absurd rfl below
  | cons name rest ih =>
      by_cases last : rest = []
      · subst last
        obtain rfl : page = directory.child name := pageAbsolute.ext (absolute.child name) names
        have none : ∀ count < [name].length, 0 < count →
            layout.Searches ⟨.root, directory.names ++ [name].take count⟩ := by
          intro count fewer positive
          rw [List.length_singleton] at fewer
          omega
        rw [discovers_child plain absolute file]
        exact ⟨fun ⟨own, other⟩ => ⟨own, other, Nat.le_add_left _ _, none⟩,
          fun ⟨own, other, _⟩ => ⟨own, other⟩⟩
      · have onward : page.names = (directory.child name).names ++ rest := by
          rw [names, Place.child, List.append_assoc, List.singleton_append]
        have inner := isDirectory_above plain (absolute.child name) last pageAbsolute onward file
        have deeper := fun fewer =>
          @ih fewer (directory.child name) (absolute.child name) last onward
        rw [discovers_by plain pageAbsolute names file, passesOver_directory absolute inner,
          if_pos inner, searches_cons directory name last]
        simp only [deeper, List.length_cons]
        constructor
        · rintro ⟨first, fewer, rfl, own, other, shallow, further⟩
          exact ⟨own, other, by omega, first, further⟩
        · rintro ⟨own, other, shallow, first, further⟩
          have positive := List.length_pos_iff.mpr last
          exact ⟨first, levels - 1, by omega, own, other, by omega, further⟩

end Files

/-- Whether a search of the root comes to a place is told from the names on the way there. -/
theorem visits_iff {page : Place} {inside : List Name}
    (names : page.names = layout.root.names ++ inside) :
    layout.Visits page ↔ page ≠ layout.outDir ∧ inside.length ≤ layout.scanDepth.toNat + 1 ∧
      ∀ count < inside.length, 0 < count →
        layout.Searches ⟨.root, layout.root.names ++ inside.take count⟩ := by
  have length : page.names.length = layout.root.names.length + inside.length := by
    rw [names, List.length_append]
  have onward : ∀ count, page.names.take (layout.root.names.length + count) =
      layout.root.names ++ inside.take count := by
    intro count
    rw [names, List.take_length_add_append]
  constructor
  · rintro ⟨other, shallow, searches⟩
    refine ⟨other, by omega, fun count fewer some => ?_⟩
    rw [← onward]
    exact searches _ (by omega) (by omega)
  · rintro ⟨other, shallow, searches⟩
    refine ⟨other, by omega, fun count fewer more => ?_⟩
    have further := searches (count - layout.root.names.length) (by omega) (by omega)
    rwa [← onward, Nat.add_sub_cancel' (Nat.le_of_lt more)] at further

end Layout

namespace Site

section Known

variable (site : Site) (page : Place)

/-- Builds make no page known. -/
theorem knows_buildEach (sources : List Path) :
    (site.buildEach sources).2.project.knows page = site.project.knows page := by
  have known := Batch.knows_follow (.start site sources) (Batch.sequence 0 sources.length) page
  rwa [Batch.start_follow_sequence] at known

/-- A notice makes a page of the layout known, and nothing else. -/
theorem knows_notifyChange (absolute : site.project.layout.root.Absolute) (path : Path) :
    (site.notifyChange path).2.project.knows page = true ↔ site.project.knows page = true ∨
      page = site.place path ∧ site.project.layout.namesPage page.toPath = true ∧
        site.project.layout.excludes page.toPath = false := by
  have again : site.project.layout.resolve (site.project.layout.resolve path).toPath =
      site.project.layout.resolve path :=
    Place.resolve_toPath _ (absolute.resolve path)
  rw [notifyChange_eq, buildMany]
  dsimp only
  rw [knows_buildEach]
  unfold concerned place
  dsimp only
  generalize site.project.layout.resolve path = place at again ⊢
  rw [again]
  split
  next concerns =>
    rw [Bool.and_eq_true, Bool.not_eq_true'] at concerns
    rw [knows_register]
    constructor
    · rintro (rfl | known)
      · exact .inr ⟨rfl, concerns⟩
      · exact .inl known
    · rintro (known | ⟨rfl, -⟩)
      · exact .inr known
      · exact .inl rfl
  next unconcerned =>
    refine ⟨.inl, ?_⟩
    rintro (known | ⟨rfl, named, included⟩)
    · exact known
    · simp [named, included] at unconcerned

end Known

/-- A path leads to a file below the root of a project without links, and the project does not know
the file. -/
structure Newcomer (site : Site) (path : Path) : Prop where
  plain : site.disk.Plain
  absolute : site.project.layout.root.Absolute
  within : (site.place path).Within site.project.layout.root
  below : site.place path ≠ site.project.layout.root
  file : site.disk.isFile (site.place path).toPath = true
  unknown : site.project.knows (site.place path) = false

instance (site : Site) (path : Path) : Decidable (site.Newcomer path) :=
  decidable_of_iff
    (site.disk.Plain ∧ site.project.layout.root.Absolute ∧
      (site.place path).Within site.project.layout.root ∧
        site.place path ≠ site.project.layout.root ∧
          site.disk.isFile (site.place path).toPath = true ∧
            site.project.knows (site.place path) = false)
    ⟨fun ⟨plain, absolute, within, below, file, unknown⟩ =>
        ⟨plain, absolute, within, below, file, unknown⟩,
      fun newcomer => ⟨newcomer.plain, newcomer.absolute, newcomer.within, newcomer.below,
        newcomer.file, newcomer.unknown⟩⟩

section Newcomer

variable {site : Site} {path : Path} (newcomer : site.Newcomer path)

include newcomer

/-- A notice of a new file makes it known for what its path says. -/
theorem Newcomer.known_iff :
    (site.notifyChange path).2.project.knows (site.place path) = true ↔
      site.project.layout.namesPage (site.place path).toPath = true ∧
        site.project.layout.excludes (site.place path).toPath = false := by
  rw [knows_notifyChange site _ newcomer.absolute, newcomer.unknown]
  simp

/-- A search of the root lists a new file for what its path says, when it comes to the file. -/
theorem Newcomer.listed_iff :
    ∃ pages, site.project.layout.scan site.disk site.project.layout.root = .ok pages ∧
      (site.place path ∈ pages ↔
        (site.project.layout.namesPage (site.place path).toPath = true ∧
          site.project.layout.excludes (site.place path).toPath = false) ∧
            site.project.layout.Visits (site.place path)) := by
  obtain ⟨plain, absolute, within, below, file, -⟩ := newcomer
  have pageAbsolute : (site.place path).Absolute := absolute.resolve path
  generalize site.place path = page at *
  obtain ⟨inside, names⟩ := within.2
  have some : inside ≠ [] := by
    rintro rfl
    rw [List.append_nil] at names
    exact below (pageAbsolute.ext absolute names.symm)
  have root := Layout.isDirectory_above plain absolute some pageAbsolute names.symm file
  obtain ⟨pages, scanned, spec⟩ :=
    @Layout.scan_spec site.project.layout site.disk plain _ absolute root
  refine ⟨pages, scanned, ?_⟩
  rw [spec, Layout.discovers_file plain absolute some pageAbsolute names.symm file,
    Layout.visits_iff names.symm]

/-- A search of the root lists exactly those new files that notices make known and that it comes to. -/
theorem mem_scan_iff_notifyChange :
    ∃ pages, site.project.layout.scan site.disk site.project.layout.root = .ok pages ∧
      (site.place path ∈ pages ↔
        (site.notifyChange path).2.project.knows (site.place path) = true ∧
          site.project.layout.Visits (site.place path)) := by
  obtain ⟨pages, scanned, listed⟩ := newcomer.listed_iff
  exact ⟨pages, scanned, by rw [listed, newcomer.known_iff]⟩

end Newcomer

/-- A project at `/r` with one file, which it does not know.  It leaves out `/r/x`. -/
def solitary (outDir file : String) : Site where
  project := {
    layout := {
      root := .ofPath ⟨"/r"⟩
      outDir := .ofPath ⟨outDir⟩
      extension := ".p"
      scanDepth := 1
      exclude := (Glob.parse "x").toOption.toList
      dialect := {}
      room := 16 } }
  disk := .ofFiles [(⟨file⟩, "")]

/-- A page in a directory is listed, as its notice makes it known. -/
theorem mem_scan_nested : (solitary "/r/o" "/r/d/i.p").Newcomer ⟨"d/i.p"⟩ ∧
    ∃ pages, (solitary "/r/o" "/r/d/i.p").project.layout.scan (solitary "/r/o" "/r/d/i.p").disk
      (solitary "/r/o" "/r/d/i.p").project.layout.root = .ok pages ∧
        .ofPath ⟨"/r/d/i.p"⟩ ∈ pages := by
  have newcomer : (solitary "/r/o" "/r/d/i.p").Newcomer ⟨"d/i.p"⟩ := by decide +kernel
  obtain ⟨pages, scanned, listed⟩ := mem_scan_iff_notifyChange newcomer
  refine ⟨newcomer, pages, scanned, listed.mpr ⟨?_, by decide +kernel⟩⟩
  exact newcomer.known_iff.mpr (by decide +kernel)

/-- The notice of a new file makes it known, but a search of the root does not list it. -/
def KnownUnlisted (site : Site) (path : Path) : Prop :=
  site.Newcomer path ∧ (site.notifyChange path).2.project.knows (site.place path) = true ∧
    ∃ pages, site.project.layout.scan site.disk site.project.layout.root = .ok pages ∧
      site.place path ∉ pages

/-- A page to which a search does not come is made known by its notice, and is not listed. -/
theorem Newcomer.knownUnlisted {site : Site} {path : Path} (newcomer : site.Newcomer path)
    (told : (site.project.layout.namesPage (site.place path).toPath = true ∧
        site.project.layout.excludes (site.place path).toPath = false) ∧
      ¬site.project.layout.Visits (site.place path)) : site.KnownUnlisted path := by
  obtain ⟨own, unsearched⟩ := told
  obtain ⟨pages, scanned, listed⟩ := newcomer.listed_iff
  exact ⟨newcomer, newcomer.known_iff.mpr own, pages, scanned,
    fun member => unsearched (listed.mp member).2⟩

/-- A search does not come to files in a hidden directory, in one for packages, in the directory of
the output, in one that is left out, or too far down, nor to one at the place of the output. -/
theorem exists_known_unlisted :
    (solitary "/r/o" "/r/.h/i.p").KnownUnlisted ⟨"/r/.h/i.p"⟩ ∧
      (solitary "/r/o" "/r/node_modules/i.p").KnownUnlisted ⟨"/r/node_modules/i.p"⟩ ∧
        (solitary "/r/o" "/r/o/i.p").KnownUnlisted ⟨"/r/o/i.p"⟩ ∧
          (solitary "/r/o" "/r/x/i.p").KnownUnlisted ⟨"/r/x/i.p"⟩ ∧
            (solitary "/r/o" "/r/d/e/i.p").KnownUnlisted ⟨"/r/d/e/i.p"⟩ ∧
              (solitary "/r/i.p" "/r/i.p").KnownUnlisted ⟨"/r/i.p"⟩ := by
  refine ⟨?_, ?_, ?_, ?_, ?_, ?_⟩
  all_goals exact Newcomer.knownUnlisted (by decide +kernel) (by decide +kernel)

end Site

end Stencil.Project
