import Stencil.Proofs.Disk.Arrivals
import Stencil.Proofs.Project.Descents
import Stencil.Proofs.Project.Notices

/-!
# Pages that a search finds

In a tree without links that can be read as a whole, a search does not fail.  Which files it finds
is told from the tree and the paths alone, and no file is found twice.  So the pages come out in one
order, whatever order the entries of the directories are listed in.
-/

namespace Stencil

/-- Whatever lies in a directory can be read there, and none of it is a link. -/
structure Disk.Legible (disk : Disk) (directory : Place) (location : Disk.Location) : Prop where
  plain : disk.Plain
  located : disk.find directory.toPath = .ok location
  held : disk.get? location = some .directory
  reads : ∀ inside entry, disk.get? (location ++ inside) = some entry →
    disk.read (directory.below inside).toPath = .ok entry

instance (disk : Disk) (directory : Place) (location : Disk.Location) :
    Decidable (disk.Legible directory location) :=
  decidable_of_iff
    (disk.Plain ∧ disk.find directory.toPath = .ok location ∧
      disk.get? location = some .directory ∧
        ∀ found ∈ disk.entries.toList, location <+: found.1 →
          disk.read (directory.below (found.1.drop location.length)).toPath = .ok found.2) <| by
    constructor
    · rintro ⟨plain, located, held, all⟩
      refine ⟨plain, located, held, fun inside entry there => ?_⟩
      have member := Std.ExtTreeMap.mem_toList_iff_getElem?_eq_some.mpr there
      simpa using all _ member (List.prefix_append location inside)
    · rintro ⟨plain, located, held, reads⟩
      refine ⟨plain, located, held, ?_⟩
      rintro ⟨_, entry⟩ member ⟨inside, rfl⟩
      have there := Std.ExtTreeMap.mem_toList_iff_getElem?_eq_some.mp member
      rw [List.drop_left]
      exact reads inside entry there

namespace Disk.Legible

variable {disk : Disk} {directory : Place} {location other : Disk.Location} {inside : List Name}
  {name : Name} {entry : Disk.Entry}

theorem find_below (legible : disk.Legible directory location) :
    disk.find (directory.below inside).toPath = .ok other ↔
      other = location ++ inside ∧ (disk.get? other).isSome := by
  obtain ⟨start, -⟩ := of_find_toPath legible.plain legible.located
  have leads : ∀ {other}, disk.find (directory.below inside).toPath = .ok other →
      other = location ++ inside ∧ (disk.get? other).isSome := by
    intro other found
    rw [start, ← locate_below]
    exact of_find_toPath legible.plain found
  refine ⟨leads, ?_⟩
  rintro ⟨rfl, there⟩
  obtain ⟨entry, held⟩ := Option.isSome_iff_exists.mp there
  have readable := legible.reads inside entry held
  unfold read at readable
  split at readable
  · cases readable
  next arrived found =>
    obtain ⟨rfl, -⟩ := leads found
    exact found

theorem read_below (legible : disk.Legible directory location) :
    disk.read (directory.below inside).toPath = .ok entry ↔
      disk.get? (location ++ inside) = some entry := by
  refine ⟨fun read => ?_, legible.reads inside entry⟩
  unfold Disk.read at read
  split at read
  · cases read
  next arrived found =>
    obtain ⟨rfl, -⟩ := legible.find_below.mp found
    split at read
    · cases read
    next held =>
      obtain rfl := Except.ok.inj read
      exact held

theorem isDirectory_below (legible : disk.Legible directory location) :
    disk.isDirectory (directory.below inside).toPath = true ↔
      disk.get? (location ++ inside) = some .directory := by
  rw [← legible.read_below, isDirectory]
  split <;> simp_all

/-- A directory inside is as legible. -/
theorem child (legible : disk.Legible directory location)
    (held : disk.get? (location ++ [name]) = some .directory) :
    disk.Legible (directory.child name) (location ++ [name]) where
  plain := legible.plain
  located := legible.find_below.mpr ⟨rfl, by rw [held]; rfl⟩
  held := held
  reads inside entry there := by
    rw [← Place.below_cons]
    apply legible.reads
    simpa using there

end Disk.Legible

/-- No name stands twice in a directory. -/
theorem Disk.nodup_names (disk : Disk) (location : Disk.Location) :
    (disk.names location).Nodup := by
  refine List.Nodup.filterMap (fun first second name one two => ?_) Std.ExtTreeMap.nodup_keys
  have whole : ∀ {other : Disk.Location},
      name ∈ (if other.dropLast = location then other.getLast? else none) →
        other = location ++ [name] := by
    intro other found
    split at found
    next above =>
      obtain ⟨front, rfl⟩ := List.getLast?_eq_some_iff.mp found
      rw [← above, List.dropLast_concat]
    · cases found
  rw [whole one, whole two]

namespace Project.Layout

variable {layout : Layout} {disk : Disk} {levels : Nat} {directory page : Place}
  {location : Disk.Location} {inside : List Name} {name : Name}

/-- A search of a directory comes to a name inside, and takes it for that of a page. -/
structure Finds (layout : Layout) (directory : Place) (inside : List Name) (name : Name) :
    Prop where
  /-- There are not too many directories on the way. -/
  shallow : inside.length ≤ layout.scanDepth.toNat
  named : name.text.endsWith layout.extension = true
  other : directory.below (inside ++ [name]) ≠ layout.outDir
  included : layout.excludes (directory.below (inside ++ [name])).toPath = false
  /-- All directories on the way are searched. -/
  searches : ∀ count < inside.length, layout.Searches (directory.below (inside.take (count + 1)))

section Legible

theorem namesPage_child (layout : Layout) (directory : Place) (name : Name) :
    layout.namesPage (directory.child name).toPath = name.text.endsWith layout.extension := by
  simp [namesPage, Path.fileName?, Place.components, Place.child]

/-- All directories on the way into a directory are searched when it is searched and all others on
the way are. -/
theorem searches_below_cons :
    (∀ count < (name :: inside).length,
        layout.Searches (directory.below ((name :: inside).take (count + 1)))) ↔
      layout.Searches (directory.child name) ∧
        ∀ count < inside.length,
          layout.Searches ((directory.child name).below (inside.take (count + 1))) := by
  rw [List.length_cons, Nat.forall_lt_succ_left]
  simp [Place.below_cons]

/-- A search enters a directory that is not too far down when it searches all directories on the
way. -/
theorem enters_iff (legible : disk.Legible directory location) :
    layout.Enters disk levels directory inside ↔
      inside.length ≤ levels ∧ disk.get? (location ++ inside) = some .directory ∧
        ∀ count < inside.length, layout.Searches (directory.below (inside.take (count + 1))) := by
  induction inside generalizing levels directory location with
  | nil =>
      rw [List.append_nil]
      exact ⟨fun _ => ⟨Nat.zero_le _, legible.held, nofun⟩, fun _ => .here⟩
  | cons name rest ih =>
      have inner : disk.isDirectory (directory.child name).toPath = true ↔
          disk.get? (location ++ [name]) = some .directory := legible.isDirectory_below
      rw [searches_below_cons]
      constructor
      · intro enters
        cases enters with
        | inside _ _ clear there enters =>
            obtain ⟨shallow, held, searches⟩ := (ih (legible.child (inner.mp there))).mp enters
            refine ⟨Nat.succ_le_succ shallow, by simpa using held, ?_, searches⟩
            exact (passesOver_child_iff there).mp clear
      · rintro ⟨shallow, held, searched, searches⟩
        have held : disk.get? ((location ++ [name]) ++ rest) = some .directory := by simpa using held
        have first : disk.get? (location ++ [name]) = some .directory := by
          by_cases last : rest = []
          · rwa [last, List.append_nil] at held
          · exact Disk.get?_of_append last held
        obtain ⟨fewer, rfl⟩ := Nat.exists_eq_add_of_le' shallow
        refine .inside legible.located (Disk.mem_names.mpr (by rw [first]; rfl))
          ((passesOver_child_iff (inner.mpr first)).mpr searched) (inner.mpr first) ?_
        exact (ih (legible.child first)).mpr ⟨by simp, held, searches⟩

/-- The pages that a search shows are the files that it finds. -/
theorem shows_iff_finds (legible : disk.Legible directory location) :
    layout.Shows disk layout.scanDepth.toNat directory page ↔
      ∃ inside name content, page = directory.below (inside ++ [name]) ∧
        disk.get? (location ++ (inside ++ [name])) = some (.file content) ∧
          layout.Finds directory inside name := by
  have child : ∀ inside name, (directory.below inside).child name =
      directory.below (inside ++ [name]) := by
    simp [Place.below, Place.child]
  constructor
  · rintro ⟨inside, name, other, enters, there, member, rfl, passed, outer, named⟩
    obtain ⟨shallow, -, searches⟩ := (enters_iff legible).mp enters
    obtain ⟨rfl, -⟩ := legible.find_below.mp there
    obtain ⟨-, different, included⟩ := (passesOver_child _ _).mp passed
    rw [Disk.mem_names, List.append_assoc] at member
    rw [namesPage_child] at named
    rw [child] at outer different included ⊢
    obtain ⟨entry, held⟩ := Option.isSome_iff_exists.mp member
    cases entry with
    | file content =>
        exact ⟨inside, name, content, rfl, held, shallow, named, different, included, searches⟩
    | directory => simp [legible.isDirectory_below.mpr held] at outer
    | link target => exact absurd held (legible.plain _ target)
  · rintro ⟨inside, name, content, rfl, held, finds⟩
    have above : disk.get? (location ++ inside) = some .directory := by
      rw [← List.append_assoc] at held
      exact Disk.get?_of_append (List.cons_ne_nil name []) held
    have outer : disk.isDirectory (directory.below (inside ++ [name])).toPath = false := by
      rw [← Bool.not_eq_true, legible.isDirectory_below, held]
      simp
    refine ⟨inside, name, location ++ inside, (enters_iff legible).mpr ⟨finds.shallow, above,
      finds.searches⟩, legible.find_below.mpr ⟨rfl, by rw [above]; rfl⟩, ?_, (child _ _).symm, ?_,
      outer, ?_⟩
    · rw [Disk.mem_names, List.append_assoc, held]
      rfl
    · rw [← child, passesOver_child, child, outer]
      exact ⟨fun inner => absurd inner Bool.false_ne_true, finds.other, finds.included⟩
    · rw [← child, namesPage_child]
      exact finds.named

end Legible

section Once

/-- A loop whose steps give different things for different items gives nothing twice. -/
theorem nodup_of_mapM {α β : Type} {Own : α → β → Prop} {items : List α}
    {step : α → Except Error (List β)} {all : List (List β)} (distinct : items.Nodup)
    (own : ∀ item found, step item = .ok found → found.Nodup ∧ ∀ b ∈ found, Own item b)
    (unique : ∀ first second b, Own first b → Own second b → first = second)
    (ran : items.mapM step = .ok all) : all.flatten.Nodup := by
  induction items generalizing all with
  | nil =>
      obtain rfl := Except.ok.inj ran
      exact List.nodup_nil
  | cons item rest ih =>
      obtain ⟨fresh, distinct⟩ := List.nodup_cons.mp distinct
      rw [List.mapM_cons] at ran
      cases here : step item with
      | error error =>
          rw [here] at ran
          cases ran
      | ok found =>
          rcases mapM_cases rest step with ⟨_, _, error, _, failed⟩ | ⟨others, succeeded, _, gathers⟩
          · rw [here, failed] at ran
            cases ran
          · rw [here, succeeded] at ran
            obtain rfl := Except.ok.inj ran
            obtain ⟨once, owned⟩ := own item found here
            rw [List.flatten_cons, List.nodup_append]
            refine ⟨once, ih distinct succeeded, fun b member c also same => ?_⟩
            obtain ⟨other, listed, given, gave, among⟩ := (gathers c).mp also
            have others := (own other given gave).2 c among
            rw [← same] at others
            exact fresh (unique item other b (owned b member) others ▸ listed)

/-- A place lies in one entry of a directory only. -/
theorem eq_of_within_child {first second : Name} (within : page.Within (directory.child first))
    (also : page.Within (directory.child second)) : first = second := by
  have shorter := List.prefix_of_prefix_length_le within.2 also.2 (by simp [Place.child])
  have same := shorter.eq_of_length (by simp [Place.child])
  simpa [Place.child] using same

/-- No page is listed twice, and all lie in a directory. -/
def Apart (directory : Place) (pages : List Place) : Prop :=
  pages.Nodup ∧ ∀ page ∈ pages, page.Within directory

theorem apart_pagesAt {enter : Place → Except Error (List Place)} {pages : List Place}
    (inner : ∀ entry pages, enter entry = .ok pages → Apart entry pages)
    (ran : layout.pagesAt disk enter directory name = .ok pages) :
    Apart (directory.child name) pages := by
  unfold pagesAt at ran
  dsimp only at ran
  split at ran
  · obtain rfl := Except.ok.inj ran
    exact ⟨List.nodup_nil, nofun⟩
  · split at ran
    · exact inner _ _ ran
    · obtain rfl := Except.ok.inj ran
      split
      · exact ⟨List.nodup_singleton _, by simp [Place.Within]⟩
      · exact ⟨List.nodup_nil, nofun⟩

variable {listing : Disk.Location → List Name}
  (distinct : ∀ location, (listing location).Nodup)

include distinct

theorem apart_pagesIn {enter : List Path → Place → Except Error (List Place)}
    {above : List Path} {pages : List Place}
    (inner : ∀ above entry pages, enter above entry = .ok pages → Apart entry pages)
    (ran : layout.pagesIn disk listing enter above directory = .ok pages) :
    Apart directory pages := by
  unfold pagesIn at ran
  dsimp only at ran
  split at ran
  · cases ran
  split at ran
  · cases ran
  next location located =>
    split at ran
    · cases ran
    have own : ∀ name found,
        layout.pagesAt disk (enter (disk.canonical directory.toPath :: above)) directory name =
            .ok found →
          Apart (directory.child name) found :=
      fun name found => apart_pagesAt (inner _)
    rcases mapM_cases (listing location)
        (layout.pagesAt disk (enter (disk.canonical directory.toPath :: above)) directory) with
      ⟨_, _, error, _, failed⟩ | ⟨all, succeeded, _, gathers⟩
    · rw [failed] at ran
      cases ran
    · rw [succeeded] at ran
      obtain rfl := Except.ok.inj ran
      refine ⟨nodup_of_mapM (distinct location) own (fun _ _ _ => eq_of_within_child) succeeded,
        fun page member => ?_⟩
      obtain ⟨name, -, found, gave, among⟩ := (gathers page).mp member
      obtain ⟨anchor, names⟩ := (own name found gave).2 page among
      exact ⟨anchor, (List.prefix_append directory.names [name]).trans names⟩

/-- A search lists no page twice. -/
theorem apart_search {above : List Path} {pages : List Place}
    (ran : layout.search disk listing levels above directory = .ok pages) :
    Apart directory pages := by
  induction levels generalizing above directory pages with
  | zero =>
      refine apart_pagesIn distinct (fun _ _ _ none => ?_) ran
      obtain rfl := Except.ok.inj none
      exact ⟨List.nodup_nil, nofun⟩
  | succ levels ih => exact apart_pagesIn distinct (fun _ _ _ => ih) ran

end Once

/-- Pages that are listed once each come out in strict order. -/
theorem pairwise_mergeSort {pages : List Place} (once : pages.Nodup) :
    (pages.mergeSort comesFirst).Pairwise (compare · · = .lt) := by
  have sorted := @List.pairwise_mergeSort Place comesFirst
    (fun _ _ _ before after => Std.TransCmp.isLE_trans before after)
    (fun first second => Component.isLE_total first.components second.components)
    pages
  have distinct : (pages.mergeSort comesFirst).Nodup := (List.mergeSort_perm _ _).nodup_iff.mpr once
  refine (sorted.and distinct).imp fun {first second} both => ?_
  obtain ⟨before, differ⟩ := both
  unfold comesFirst at before
  have unequal : compare first second ≠ .eq := fun same => differ (Std.compare_eq_iff_eq.mp same)
  cases order : compare first second <;> simp_all

/-- Lists of the same pages, each without repetition, come out alike. -/
theorem mergeSort_eq {pages others : List Place} (once : pages.Nodup) (also : others.Nodup)
    (same : ∀ page, page ∈ pages ↔ page ∈ others) :
    pages.mergeSort comesFirst = others.mergeSort comesFirst := by
  refine List.Perm.eq_of_pairwise ?_ (pairwise_mergeSort once) (pairwise_mergeSort also) ?_
  · intro first second _ _ before after
    rw [@Std.OrientedCmp.eq_swap _ compare _ first second, after] at before
    cases before
  · exact (List.mergeSort_perm _ _).trans
      (((List.perm_ext_iff_of_nodup once also).mpr same).trans (List.mergeSort_perm _ _).symm)

/-- A search lists the files that it finds, each of them once. -/
theorem search_finds {listing : Disk.Location → List Name}
    (lists : ∀ location, (listing location).Perm (disk.names location))
    (legible : disk.Legible directory location) :
    ∃ pages, layout.search disk listing layout.scanDepth.toNat [] directory = .ok pages ∧
      pages.Nodup ∧
      ∀ page, page ∈ pages ↔ ∃ inside name content, page = directory.below (inside ++ [name]) ∧
        disk.get? (location ++ (inside ++ [name])) = some (.file content) ∧
          layout.Finds directory inside name := by
  have found : disk.isDirectory directory.toPath = true := by
    rw [← directory.below_nil, legible.isDirectory_below, List.append_nil]
    exact legible.held
  have distinct : ∀ location, (listing location).Nodup := fun location =>
    (lists location).nodup_iff.mpr (disk.nodup_names location)
  have told : layout.Told disk layout.scanDepth.toNat [] directory
      (layout.search disk listing layout.scanDepth.toNat [] directory) := told_search lists found
  cases ran : layout.search disk listing layout.scanDepth.toNat [] directory with
  | error error =>
      rw [ran] at told
      cases told with
      | cycle enters noticed =>
          refine absurd (enters.returns_of_noticed found noticed)
            (@not_returns _ _ _ location fun count => ?_)
          obtain ⟨-, held, -⟩ := (enters_iff legible).mp (enters.take count)
          exact legible.find_below.mpr ⟨rfl, by rw [held]; rfl⟩
  | ok pages =>
      rw [ran] at told
      cases told with
      | pages _ shown =>
          refine ⟨pages, rfl, (apart_search distinct ran).1, fun page => ?_⟩
          rw [shown, shows_iff_finds legible]

/-- Below a directory that can be read as a whole, a search finds the files with the ending of pages
in the directories that are searched.  They come out in strict order, in whatever order the entries
of directories are listed. -/
theorem scan_finds {path : Path} (legible : disk.Legible (layout.resolve path) location) :
    let directory := layout.resolve path
    ∃ pages, layout.scan disk directory = .ok pages ∧
      pages.Pairwise (compare · · = .lt) ∧
      (∀ page, page ∈ pages ↔ ∃ inside name content, page = directory.below (inside ++ [name]) ∧
        disk.get? (location ++ (inside ++ [name])) = some (.file content) ∧
          layout.Finds directory inside name) ∧
      ∀ listing : Disk.Location → List Name,
        (∀ location, (listing location).Perm (disk.names location)) →
          (layout.search disk listing layout.scanDepth.toNat [] directory).map
            (List.mergeSort · comesFirst) = .ok pages := by
  intro directory
  obtain ⟨pages, ran, once, told⟩ := search_finds (fun _ => .refl _) legible
  refine ⟨pages.mergeSort comesFirst, by rw [scan, ran]; rfl, pairwise_mergeSort once,
    fun page => by rw [List.mem_mergeSort, told], fun listing lists => ?_⟩
  obtain ⟨others, also, distinct, same⟩ := search_finds lists legible
  rw [also, Except.map, mergeSort_eq distinct once fun page => (same page).trans (told page).symm]

/-- A project in a directory `r` of the current one.  It leaves out `x.p`, and its output goes to
`o`. -/
def relative : Layout where
  root := .ofPath ⟨"r"⟩
  outDir := .ofPath ⟨"r/o"⟩
  extension := ".p"
  scanDepth := 1
  exclude := (Glob.parse "x.p").toOption.toList
  dialect := {}
  room := 16

/-- Files of which some are no pages, or lie where no search comes. -/
def mixedFiles : Disk :=
  .ofFiles <| ["/r/.h.p", "/r/x.p", "/r/d/k.p", "/r/d/e/l.p", "/r/.g/m.p", "/r/o/q.p"].map
    fun text => (⟨text⟩, "")

/-- Two of the files are found, however the directories are listed. -/
theorem scan_finds_mixed :
    let root := relative.resolve ⟨"."⟩
    let pages := [.ofPath ⟨"r/.h.p"⟩, .ofPath ⟨"r/d/k.p"⟩]
    mixedFiles.Legible root root.names ∧ relative.scan mixedFiles root = .ok pages ∧
      ∀ listing : Disk.Location → List Name,
        (∀ location, (listing location).Perm (mixedFiles.names location)) →
          (relative.search mixedFiles listing relative.scanDepth.toNat [] root).map
            (List.mergeSort · comesFirst) = .ok pages := by
  intro root pages
  have legible : mixedFiles.Legible root root.names := by decide +kernel
  have searched : (relative.search mixedFiles mixedFiles.names relative.scanDepth.toNat []
      root).toOption = some pages := by
    decide +kernel
  have sorted : pages.Pairwise (comesFirst · ·) := by decide +kernel
  have scanned : relative.scan mixedFiles root = .ok pages :=
    scan_of_sorted (ok_of_toOption searched) sorted
  obtain ⟨others, found, -, -, listed⟩ := scan_finds legible
  obtain rfl : pages = others := Except.ok.inj (scanned.symm.trans found)
  exact ⟨legible, scanned, listed⟩

end Project.Layout

end Stencil
